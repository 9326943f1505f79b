/-!
# Reading UTF-8

Bytes are read one at a time.  Between two characters nothing is pending; inside
a character the reader remembers where it began, the value collected so far and
which bytes may come next.  The bounds on the second byte rule out overlong
forms, surrogates and code points beyond U+10FFFF, so every accepted sequence is
the shortest form of a character.  The first bad byte ends the reading.
-/

namespace VersionRange

/-- Why a byte sequence is not UTF-8. -/
inductive Utf8Problem
  | invalidStart
  | invalidContinuation
  | unexpectedEnd
  deriving DecidableEq, Repr

/-- A refused byte sequence: its first byte, and the positions of the first and
the last byte of the character that could not be finished. -/
structure Utf8Fault where
  byte : UInt8
  first : Nat
  last : Nat
  problem : Utf8Problem
  deriving DecidableEq, Repr

namespace Utf8

/-- A character that has begun: the byte and position it began at, the value of
its bits so far, how many bytes are still missing, and the bounds of the next. -/
structure Pending where
  byte : UInt8
  start : Nat
  value : Nat
  missing : Nat
  low : Nat
  high : Nat
  deriving DecidableEq, Repr

/-- What a first byte of two or more announces. -/
def announce (byte : UInt8) (position : Nat) : Option Pending :=
  let b := byte.toNat
  if b < 0xC2 then none
  else if b < 0xE0 then some ⟨byte, position, b - 0xC0, 1, 0x80, 0xBF⟩
  else if b = 0xE0 then some ⟨byte, position, 0, 2, 0xA0, 0xBF⟩
  else if b = 0xED then some ⟨byte, position, 0xD, 2, 0x80, 0x9F⟩
  else if b < 0xF0 then some ⟨byte, position, b - 0xE0, 2, 0x80, 0xBF⟩
  else if b = 0xF0 then some ⟨byte, position, 0, 3, 0x90, 0xBF⟩
  else if b < 0xF4 then some ⟨byte, position, b - 0xF0, 3, 0x80, 0xBF⟩
  else if b = 0xF4 then some ⟨byte, position, 4, 3, 0x80, 0x8F⟩
  else none

/-- Reads the bytes from `position` on. -/
def decodeFrom : Nat → Option Pending → List UInt8 → Except Utf8Fault (List Char)
  | _, none, [] => .ok []
  | position, some p, [] => .error ⟨p.byte, p.start, position - 1, .unexpectedEnd⟩
  | position, none, byte :: rest =>
    if byte.toNat < 0x80 then do
      let chars ← decodeFrom (position + 1) none rest
      return Char.ofNat byte.toNat :: chars
    else
      match announce byte position with
      | none => .error ⟨byte, position, position, .invalidStart⟩
      | some p => decodeFrom (position + 1) (some p) rest
  | position, some p, byte :: rest =>
    let b := byte.toNat
    if p.low ≤ b && b ≤ p.high then
      let value := p.value * 64 + b % 64
      if p.missing ≤ 1 then do
        let chars ← decodeFrom (position + 1) none rest
        return Char.ofNat value :: chars
      else
        decodeFrom (position + 1)
          (some { p with value := value, missing := p.missing - 1, low := 0x80, high := 0xBF })
          rest
    else
      .error ⟨p.byte, p.start, position - 1, .invalidContinuation⟩

end Utf8

/-- The characters written by `bytes`. -/
def decodeUtf8 (bytes : List UInt8) : Except Utf8Fault (List Char) :=
  Utf8.decodeFrom 0 none bytes

/-- Every line end becomes a single line feed. -/
def unifyLineEnds : List Char → List Char
  | '\r' :: '\n' :: rest => '\n' :: unifyLineEnds rest
  | '\r' :: rest => '\n' :: unifyLineEnds rest
  | c :: rest => c :: unifyLineEnds rest
  | [] => []

example : decodeUtf8 [0xC3, 0xA9, 0x0A] = .ok ['é', '\n'] := by rfl

example : decodeUtf8 [0x61, 0xE2, 0x82] = .error ⟨0xE2, 1, 2, .unexpectedEnd⟩ := by rfl

end VersionRange
