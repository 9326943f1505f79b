import VersionRange.Fault

/-!
# Reading JSON

The reader accepts the JSON grammar and, beyond it, the three names `NaN`,
`Infinity` and `-Infinity`.  It stops at the first offset at which the text cannot
go on, or where lists and objects are nested too deeply.  A name that occurs twice
in an object keeps its first place and takes its last value.  Two escapes that name
the halves of a surrogate pair make one character.
-/

namespace VersionRange

namespace Json

/-- The rest of a text, and how many characters stand before it. -/
structure Cursor where
  offset : Nat
  rest : List Char

/-- Why reading stopped. -/
inductive Stop
  | problem (problem : JsonProblem) (offset : Nat)
  | numeral (fault : NumeralFault)
  | nesting (container : JsonContainer)

/-- How many lists and objects may be open at once, where nothing else is said. -/
def nestingLimit : Nat := 990

/-- The white space of JSON. -/
def isSpace (c : Char) : Bool :=
  c = ' ' || c = '\t' || c = '\n' || c = '\r'

def skipSpaceFrom : Nat → List Char → Cursor
  | offset, [] => ⟨offset, []⟩
  | offset, c :: rest => if isSpace c then skipSpaceFrom (offset + 1) rest else ⟨offset, c :: rest⟩

def Cursor.skipSpace (cursor : Cursor) : Cursor :=
  skipSpaceFrom cursor.offset cursor.rest

/-- The value of a hexadecimal digit. -/
def hexValue? (c : Char) : Option Nat :=
  if c.isDigit then some (c.toNat - 48)
  else if 'a' ≤ c && c ≤ 'f' then some (c.toNat - 87)
  else if 'A' ≤ c && c ≤ 'F' then some (c.toNat - 55)
  else none

/-- The number written by hexadecimal digits. -/
def hexNumber? (digits : List Char) : Option Nat :=
  digits.foldlM (fun n c => (hexValue? c).map (16 * n + ·)) 0

/-- The character that a letter behind a backslash stands for. -/
def escapedChar? : Char → Option Char
  | '"' => some '"'
  | '\\' => some '\\'
  | '/' => some '/'
  | 'b' => some '\x08'
  | 'f' => some '\x0c'
  | 'n' => some '\n'
  | 'r' => some '\r'
  | 't' => some '\t'
  | _ => none

/-- Reads the four digits behind a backslash at `offset` and a `u`, and a second
escape that completes a surrogate pair.  Gives the character and how many
characters behind the backslash it takes.  A closing quote must be able to follow. -/
def readUnicode (offset : Nat) (rest : List Char) : Except Stop (Char × Nat) :=
  if (rest.drop 4).isEmpty then .error (.problem .invalidUnicodeEscape (offset + 1))
  else
    match hexNumber? (rest.take 4) with
    | none => .error (.problem .invalidUnicodeEscape (offset + 1))
    | some first =>
      match isHighSurrogate first && !(rest.drop 10).isEmpty, rest.drop 4 with
      | true, '\\' :: 'u' :: more =>
        match hexNumber? (more.take 4) with
        | none => .error (.problem .invalidUnicodeEscape (offset + 7))
        | some second =>
          if isLowSurrogate second then
            .ok (Char.ofNat (joinSurrogates first second), 11)
          else .ok (charOfCodePoint first, 5)
      | _, _ => .ok (charOfCodePoint first, 5)

/-- Reads what stands behind a backslash at `offset` in a string that began at
`start`. -/
def readEscape (start offset : Nat) : List Char → Except Stop (Char × Nat)
  | [] => .error (.problem .unterminated start)
  | 'u' :: rest => readUnicode offset rest
  | c :: _ =>
    match escapedChar? c with
    | some char => .ok (char, 1)
    | none => .error (.problem .invalidEscape offset)

/-- Reads a string up to its closing quote.  The first `skip` characters belong to
an escape that has been read already. -/
def readStringFrom (start : Nat) : Nat → Nat → List Char → Except Stop (List Char × Cursor)
  | _, _, [] => .error (.problem .unterminated start)
  | offset, skip + 1, _ :: rest => readStringFrom start (offset + 1) skip rest
  | offset, 0, c :: rest =>
    if c = '"' then .ok ([], ⟨offset + 1, rest⟩)
    else if c = '\\' then do
      let (char, taken) ← readEscape start offset rest
      let (chars, cursor) ← readStringFrom start (offset + 1) taken rest
      return (char :: chars, cursor)
    else if c.toNat ≤ 0x1F then .error (.problem .controlCharacter offset)
    else do
      let (chars, cursor) ← readStringFrom start (offset + 1) 0 rest
      return (c :: chars, cursor)

/-- Reads a string whose opening quote is at the cursor. -/
def readString (cursor : Cursor) : Except Stop (String × Cursor) := do
  let (chars, after) ← readStringFrom cursor.offset (cursor.offset + 1) 0 (cursor.rest.drop 1)
  return (String.ofList chars, after)

/-- The characters of a number's fraction: a point and at least one digit. -/
def fractionOf : List Char → List Char
  | '.' :: rest =>
    let digits := rest.takeWhile Char.isDigit
    if digits.isEmpty then [] else '.' :: digits
  | _ => []

/-- The characters of a number's exponent: a letter, a sign or none, digits. -/
def exponentOf : List Char → List Char
  | e :: rest =>
    if e = 'e' || e = 'E' then
      let sign := match rest with
        | s :: _ => if s = '+' || s = '-' then [s] else []
        | [] => []
      let digits := (rest.drop sign.length).takeWhile Char.isDigit
      if digits.isEmpty then [] else e :: (sign ++ digits)
    else []
  | [] => []

/-- Reads a number.  Without fraction and exponent it is whole. -/
def readNumber (cursor : Cursor) : Except Stop (Value × Cursor) :=
  let negative := cursor.rest.head? = some '-'
  let sign := if negative then ['-'] else []
  let body := cursor.rest.drop sign.length
  let whole := if body.head? = some '0' then ['0'] else body.takeWhile Char.isDigit
  if whole.isEmpty then .error (.problem .expectingValue cursor.offset)
  else
    let rest := body.drop whole.length
    let fraction := fractionOf rest
    let exponent := exponentOf (rest.drop fraction.length)
    let length := sign.length + whole.length + fraction.length + exponent.length
    let after : Cursor := ⟨cursor.offset + length, cursor.rest.drop length⟩
    if fraction.isEmpty && exponent.isEmpty then
      match readNumeral whole with
      | .ok n => .ok (.int (if negative then -(n : Int) else n), after)
      | .error fault => .error (.numeral fault)
    else
      match Binary64.ofText? (sign ++ whole ++ fraction ++ exponent) with
      | some x => .ok (.float x, after)
      | none => .error (.problem .expectingValue cursor.offset)

/-- The values that are written by a name. -/
def names : List (List Char × Value) :=
  [("null".toList, .null), ("true".toList, .bool true), ("false".toList, .bool false),
   ("NaN".toList, .float .nan), ("Infinity".toList, .float (.infinite false)),
   ("-Infinity".toList, .float (.infinite true))]

/-- Reads a value that is neither a list nor an object. -/
def readScalar (cursor : Cursor) : Except Stop (Value × Cursor) :=
  if cursor.rest.head? = some '"' then do
    let (text, after) ← readString cursor
    return (.text text, after)
  else
    match names.find? fun (name, _) => name.isPrefixOf cursor.rest with
    | some (name, value) =>
      .ok (value, ⟨cursor.offset + name.length, cursor.rest.drop name.length⟩)
    | none => readNumber cursor

mutual

/-- Reads a value inside of `depth` open lists and objects, of which there may be `limit`;
the next argument bounds the number of steps. -/
def readValue (limit : Nat) : Nat → Nat → Cursor → Except Stop (Value × Cursor)
  | 0, _, cursor => .error (.problem .expectingValue cursor.offset)
  | steps + 1, depth, cursor =>
    match cursor.rest with
    | '[' :: rest =>
      if limit ≤ depth then .error (.nesting .list)
      else
        let inside := Cursor.skipSpace ⟨cursor.offset + 1, rest⟩
        match inside.rest with
        | ']' :: rest => .ok (.list [], ⟨inside.offset + 1, rest⟩)
        | _ => readItems limit steps (depth + 1) [] inside
    | '\x7b' :: rest =>
      if limit ≤ depth then .error (.nesting .object)
      else
        let inside := Cursor.skipSpace ⟨cursor.offset + 1, rest⟩
        match inside.rest with
        | '\x7d' :: rest => .ok (.object [], ⟨inside.offset + 1, rest⟩)
        | _ => readEntries limit steps (depth + 1) [] inside
    | _ => readScalar cursor

/-- Reads the items from here to the end of a list; those before are given in
reverse. -/
def readItems (limit : Nat) : Nat → Nat → List Value → Cursor → Except Stop (Value × Cursor)
  | 0, _, _, cursor => .error (.problem .expectingValue cursor.offset)
  | steps + 1, depth, before, cursor => do
    let (item, after) ← readValue limit steps depth cursor
    let after := after.skipSpace
    match after.rest with
    | ']' :: rest => return (.list (item :: before).reverse, ⟨after.offset + 1, rest⟩)
    | ',' :: rest =>
      readItems limit steps depth (item :: before) (Cursor.skipSpace ⟨after.offset + 1, rest⟩)
    | _ => throw (.problem .expectingComma after.offset)

/-- Reads the entries from here to the end of an object; those before are given. -/
def readEntries (limit : Nat) :
    Nat → Nat → List (Value × Value) → Cursor → Except Stop (Value × Cursor)
  | 0, _, _, cursor => .error (.problem .expectingName cursor.offset)
  | steps + 1, depth, before, cursor => do
    if cursor.rest.head? ≠ some '"' then
      throw (.problem .expectingName cursor.offset)
    let (name, after) ← readString cursor
    let after := after.skipSpace
    match after.rest with
    | ':' :: rest =>
      let (value, after) ← readValue limit steps depth (Cursor.skipSpace ⟨after.offset + 1, rest⟩)
      let entries := Value.setEntry (.text name) value before
      let after := after.skipSpace
      match after.rest with
      | '\x7d' :: rest => return (.object entries, ⟨after.offset + 1, rest⟩)
      | ',' :: rest =>
        readEntries limit steps depth entries (Cursor.skipSpace ⟨after.offset + 1, rest⟩)
      | _ => throw (.problem .expectingComma after.offset)
    | _ => throw (.problem .expectingColon after.offset)

end

/-- The value written by the whole of `text`, in which `limit` lists and objects may be open
at once. -/
def readCharsWithin (limit : Nat) (text : List Char) : Except Fault Value :=
  let atOffset (problem : JsonProblem) (offset : Nat) : Fault :=
    .json (JsonFault.at text problem offset)
  if text.head? = some '\uFEFF' then .error (atOffset .byteOrderMark 0)
  else
    match readValue limit (2 * text.length + 2) 0 (skipSpaceFrom 0 text) with
    | .error (.problem problem offset) => .error (atOffset problem offset)
    | .error (.numeral fault) => .error (.numeral fault)
    | .error (.nesting container) => .error (.nesting container)
    | .ok (value, after) =>
      let after := after.skipSpace
      if after.rest.isEmpty then .ok value else .error (atOffset .extraData after.offset)

def readChars : List Char → Except Fault Value :=
  readCharsWithin nestingLimit

def read (text : String) : Except Fault Value :=
  readChars text.toList

end Json

end VersionRange
