/-!
# Bytes written in base 64

Four digits make three bytes.  Characters that are no digits are passed over, and equals
signs fill up the last group: once it is full, nothing behind it counts.
-/

namespace VersionRange

/-- The digits of base 64, from zero on. -/
def base64Digits : List Char :=
  "ABCDEFGHIJKLMNOPQRSTUVWXYZabcdefghijklmnopqrstuvwxyz0123456789+/".toList

/-- Decodes from the digit at a place in its group on.  `left` are the bits of the digit
in front that are in no byte yet, and `signs` the equals signs since that digit. -/
def decodeBase64From (place left signs : Nat) : List Char → Option (List UInt8)
  | [] => if place = 0 then some [] else none
  | c :: rest =>
    if c = '=' then
      if place < 2 then decodeBase64From place left signs rest
      else if 4 ≤ place + signs + 1 then some []
      else decodeBase64From place left (signs + 1) rest
    else
      match base64Digits.idxOf? c with
      | none => decodeBase64From place left signs rest
      | some digit =>
        match place with
        | 0 => decodeBase64From 1 digit 0 rest
        | 1 => (UInt8.ofNat (left * 4 + digit / 16) :: ·) <$>
            decodeBase64From 2 (digit % 16) 0 rest
        | 2 => (UInt8.ofNat (left * 16 + digit / 4) :: ·) <$>
            decodeBase64From 3 (digit % 4) 0 rest
        | _ => (UInt8.ofNat (left * 64 + digit) :: ·) <$> decodeBase64From 0 0 0 rest

/-- The bytes of a text in base 64; nothing if its last group is not full. -/
def decodeBase64 (text : List Char) : Option (List UInt8) :=
  decodeBase64From 0 0 0 text

example : decodeBase64 "aGk=\n!".toList = some [104, 105] ∧ decodeBase64 "aGk".toList = none := by
  decide +kernel

end VersionRange
