import VersionRange.Fault

/-!
# Writing JSON

Documents are written on indented lines, in ASCII.  Every other character is
written by its number, as one or two units of sixteen bits.
-/

namespace VersionRange.Json

def unitEscape (n : Nat) : List Char :=
  '\\' :: 'u' :: hexDigits 4 n

/-- How a character stands in a string. -/
def charEscape (c : Char) : List Char :=
  if c = '"' || c = '\\' then ['\\', c]
  else if c = '\n' then ['\\', 'n']
  else if c = '\r' then ['\\', 'r']
  else if c = '\t' then ['\\', 't']
  else if c = '\x08' then ['\\', 'b']
  else if c = '\x0c' then ['\\', 'f']
  else if ' ' ≤ c && c ≤ '~' then [c]
  else if codePoint c < 0x10000 then unitEscape (codePoint c)
  else
    let (high, low) := splitSurrogates c.toNat
    unitEscape high ++ unitEscape low

def stringText (s : String) : String :=
  String.ofList ('"' :: s.toList.flatMap charEscape ++ ['"'])

/-- The text of a number; those that JSON has no numerals for have names. -/
def floatText (x : Binary64) : String :=
  match x with
  | .nan => "NaN"
  | .infinite negative => if negative then "-Infinity" else "Infinity"
  | finite => finite.text

/-- A value that has no parts. -/
def scalarText : Value → String
  | .null => "null"
  | .bool b => if b then "true" else "false"
  | .int n => Value.intText n
  | .float x => floatText x
  | .text s => stringText s
  | other => stringText other.plain

/-- The text of a key; a key that is not a text is named by how it is written. -/
def keyName : Value → String
  | .text s => s
  | other => scalarText other

def keyText (key : Value) : String :=
  stringText (keyName key)

/-- A line end and the spaces in front of what stands `depth` levels deep. -/
def newLine (depth : Nat) : String :=
  String.ofList ('\n' :: List.replicate (2 * depth) ' ')

/-- The text of a value whose first line is already `depth` levels deep. -/
def layOut (depth : Nat) : Value → String
  | .list [] => "[]"
  | .object [] => "\x7b\x7d"
  | .list items =>
    "[" ++ newLine (depth + 1) ++ itemsText depth items ++ newLine depth ++ "]"
  | .pair first second =>
    "[" ++ newLine (depth + 1) ++ layOut (depth + 1) first ++ "," ++ newLine (depth + 1) ++
      layOut (depth + 1) second ++ newLine depth ++ "]"
  | .object entries =>
    "\x7b" ++ newLine (depth + 1) ++ entriesText depth entries ++ newLine depth ++ "\x7d"
  | other => scalarText other
where
  itemsText (depth : Nat) : List Value → String
    | [] => ""
    | [item] => layOut (depth + 1) item
    | item :: next :: rest =>
      layOut (depth + 1) item ++ "," ++ newLine (depth + 1) ++ itemsText depth (next :: rest)
  entriesText (depth : Nat) : List (Value × Value) → String
    | [] => ""
    | [(key, value)] => keyText key ++ ": " ++ layOut (depth + 1) value
    | (key, value) :: next :: rest =>
      keyText key ++ ": " ++ layOut (depth + 1) value ++ "," ++ newLine (depth + 1) ++
        entriesText depth (next :: rest)

/-- The text of a document. -/
def pretty (value : Value) : String :=
  layOut 0 value

/-- Why a value that is no list, pair or object has no form in JSON: bytes, dates, moments,
versions and sets have none, nor have integers that cannot be written and values that stand
inside themselves. -/
def scalarFault? : Value → Option Fault
  | .int n => if isWritableNumeral n.natAbs then none else some (.numeral .tooLargeToWrite)
  | .bytes b => some (.sort (.notWritable (Value.bytes b).kind))
  | .date d => some (.sort (.notWritable (Value.date d).kind))
  | .moment m => some (.sort (.notWritable (Value.moment m).kind))
  | .version v => some (.sort (.notWritable (Value.version v).kind))
  | .set items => some (.sort (.notWritable (Value.set items).kind))
  | .again _ => some .endless
  | _ => none

/-- Why a key has no form in JSON. -/
def keyFault? (key : Value) : Option Fault :=
  (scalarFault? key).map fun
    | .sort (.notWritable kind) => .sort (.notWritableKey kind)
    | other => other

/-- The fault of the first part of a value that has no form in JSON. -/
def fault? : Value → Option Fault
  | .list items => inItems items
  | .pair first second => (fault? first).or (fault? second)
  | .object entries => inEntries entries
  | other => scalarFault? other
where
  inItems : List Value → Option Fault
    | [] => none
    | item :: rest => (fault? item).or (inItems rest)
  inEntries : List (Value × Value) → Option Fault
    | [] => none
    | (key, value) :: rest => ((keyFault? key).or (fault? value)).or (inEntries rest)

/-- The text of a document, all of whose parts must have a form. -/
def write (value : Value) : Except Fault String :=
  match fault? value with
  | none => .ok (pretty value)
  | some fault => .error fault

example : stringText "\x7f\n😀" = "\"\\u007f\\n\\ud83d\\ude00\"" := by decide +kernel

example : pretty (.object [(.text "a", .list [.int 1, .null]), (.bool true, .list [])]) =
    "\x7b\n  \"a\": [\n    1,\n    null\n  ],\n  \"true\": []\n\x7d" := by decide +kernel

end VersionRange.Json
