import VersionRange.Text.Quoted
import VersionRange.Json.Fault
import VersionRange.Binary64.Decimal
import VersionRange.Calendar
import VersionRange.Version.Basic

/-!
# Values whose shape is not known yet

Documents are read into values, and callers may hand in values, before anything
is known about their shape.  A value has two texts: its *literal*, which stands
inside messages, and its *plain* text, which differs from the literal for texts,
versions and dates.  The keys of an object are values too, because documents may
have keys that are not texts; the entries keep the order in which keys first
appeared.
-/

namespace VersionRange

inductive Value
  | null
  | bool (value : Bool)
  | int (value : Int)
  | float (value : Binary64)
  | text (value : String)
  | bytes (value : List UInt8)
  | date (value : Date)
  | moment (value : Moment)
  | version (value : Version)
  | list (items : List Value)
  | pair (first second : Value)
  | set (items : List Value)
  | object (entries : List (Value × Value))
  /-- A list or an object that this value stands inside of. -/
  | again (container : JsonContainer)
  deriving Inhabited

namespace Value

/-- The name of the sort of value, as messages give it. -/
def kind : Value → String
  | null => "NoneType"
  | bool _ => "bool"
  | int _ => "int"
  | float _ => "float"
  | text _ => "str"
  | bytes _ => "bytes"
  | date _ => "date"
  | moment _ => "datetime"
  | version _ => "Version"
  | list _ | again .list => "list"
  | pair .. => "tuple"
  | set _ => "set"
  | object _ | again .object => "dict"

def boolText (b : Bool) : String :=
  if b then "True" else "False"

def intText (n : Int) : String :=
  let digits := String.ofList (numeralChars n.natAbs)
  if n < 0 then "-" ++ digits else digits

/-- The text of a value inside a message. -/
def literal : Value → String
  | null => "None"
  | bool b => boolText b
  | int n => intText n
  | float x => x.text
  | text s => quoted s
  | bytes b => quotedBytes b
  | date d => d.literal
  | moment m => m.literal
  | version v => "Version('" ++ v.text ++ "')"
  | list items => "[" ++ itemsText items ++ "]"
  | pair first second => "(" ++ literal first ++ ", " ++ literal second ++ ")"
  | set [] => "set()"
  | set items => "\x7b" ++ itemsText items ++ "\x7d"
  | object entries => "\x7b" ++ entriesText entries ++ "\x7d"
  | again .list => "[...]"
  | again .object => "\x7b...\x7d"
where
  itemsText : List Value → String
    | [] => ""
    | [item] => literal item
    | item :: next :: rest => literal item ++ ", " ++ itemsText (next :: rest)
  entriesText : List (Value × Value) → String
    | [] => ""
    | [(key, value)] => literal key ++ ": " ++ literal value
    | (key, value) :: next :: rest =>
      literal key ++ ": " ++ literal value ++ ", " ++ entriesText (next :: rest)

/-- Whether every integer in a value can be written, so that the value has a text. -/
def isWritable : Value → Bool
  | int n => isWritableNumeral n.natAbs
  | list items | set items => itemsWritable items
  | pair first second => isWritable first && isWritable second
  | object entries => entriesWritable entries
  | _ => true
where
  itemsWritable : List Value → Bool
    | [] => true
    | item :: rest => isWritable item && itemsWritable rest
  entriesWritable : List (Value × Value) → Bool
    | [] => true
    | (key, value) :: rest => isWritable key && isWritable value && entriesWritable rest

/-- The literals of several values between round brackets; a single one is
followed by a comma. -/
def tupleLiteral (items : List Value) : String :=
  match items with
  | [item] => "(" ++ item.literal ++ ",)"
  | _ => "(" ++ literal.itemsText items ++ ")"

/-- The text of a value on its own. -/
def plain : Value → String
  | text s => s
  | date d => d.text
  | moment m => m.text
  | version v => v.text
  | other => other.literal

/-- Whether a value counts as present: zero, nothing and empty ones do not. -/
def isTruthy : Value → Bool
  | null => false
  | bool b => b
  | int n => n != 0
  | float x => !x.isZero
  | text s => !s.isEmpty
  | bytes b => !b.isEmpty
  | list items | set items => !items.isEmpty
  | object entries => !entries.isEmpty
  | date _ | moment _ | version _ | pair .. | again _ => true

/-- Whether a value may be the key of an object. -/
def isKey : Value → Bool
  | list _ | pair .. | set _ | object _ | again _ => false
  | _ => true

/-- The whole number that a truth value or an integer stands for as a key. -/
def wholeNumber? : Value → Option Int
  | bool b => some (if b then 1 else 0)
  | int n => some n
  | _ => none

/-- Whether two values are the same key.  Numbers are compared by value, so that
`1`, `1.0` and *true* are one key, and moments by the instant. -/
def sameKey (a b : Value) : Bool :=
  match a, b with
  | null, null => true
  | text s, text t => s == t
  | bytes b, bytes c => b == c
  | date d, date e => d == e
  | moment m, moment n => m.sameInstant n
  | version v, version w => v == w
  | float x, float y => x.sameNumber y
  | float x, other => (other.wholeNumber?.map x.equalsInt).getD false
  | other, float y => (other.wholeNumber?.map y.equalsInt).getD false
  | a, b =>
    match a.wholeNumber?, b.wholeNumber? with
    | some m, some n => m == n
    | _, _ => false

/-- The entries with `value` at `key`: a key that is there keeps its place. -/
def setEntry (key value : Value) : List (Value × Value) → List (Value × Value)
  | [] => [(key, value)]
  | (k, v) :: rest =>
    if k.sameKey key then (k, value) :: rest else (k, v) :: setEntry key value rest

/-- The value at a key that is a text. -/
def entry? (name : String) (entries : List (Value × Value)) : Option Value :=
  (entries.find? fun e => e.1.sameKey (text name)).map Prod.snd

end Value

end VersionRange
