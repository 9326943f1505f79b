/-!
# Halves of surrogate pairs

An escape may name a code point from U+D800 to U+DFFF.  Such a code point is half of
a pair and no character, so a text holds a stand-in for it: the code point `0xD0000`
above it, to which no character is assigned.  A stand-in counts as the half that it
stands for wherever texts are shown by numbers or put in order.
-/

namespace VersionRange

def isHighSurrogate (n : Nat) : Bool := 0xD800 ≤ n && n ≤ 0xDBFF

def isLowSurrogate (n : Nat) : Bool := 0xDC00 ≤ n && n ≤ 0xDFFF

def isSurrogate (n : Nat) : Bool := isHighSurrogate n || isLowSurrogate n

/-- How far a stand-in lies above its half. -/
def standInDistance : Nat := 0xD0000

/-- The character of a code point, which is a stand-in if the code point is a half. -/
def charOfCodePoint (n : Nat) : Char :=
  if isSurrogate n then Char.ofNat (standInDistance + n) else Char.ofNat n

/-- The code point that a character of a text counts as. -/
def codePoint (c : Char) : Nat :=
  if isSurrogate (c.toNat - standInDistance) then c.toNat - standInDistance else c.toNat

/-- The code point of two halves that follow each other. -/
def joinSurrogates (high low : Nat) : Nat :=
  0x10000 + (high - 0xD800) * 0x400 + (low - 0xDC00)

/-- The two halves of a code point beyond the first 65536. -/
def splitSurrogates (n : Nat) : Nat × Nat :=
  (0xD800 + (n - 0x10000) / 0x400, 0xDC00 + (n - 0x10000) % 0x400)

/-- Whether a character stands in for half of a pair. -/
def isStandIn (c : Char) : Bool :=
  isSurrogate (codePoint c)

/-- Whether a text comes before another in the order of code points. -/
def textBefore (s t : String) : Bool :=
  decide (s.toList.map codePoint < t.toList.map codePoint)

/-- Every half is recovered from its stand-in. -/
theorem codePoint_charOfCodePoint {n : Nat} (half : isSurrogate n = true) :
    codePoint (charOfCodePoint n) = n := by
  have bounds : 0xD800 ≤ n ∧ n ≤ 0xDFFF := by
    simp only [isSurrogate, isHighSurrogate, isLowSurrogate, Bool.or_eq_true, Bool.and_eq_true,
      decide_eq_true_eq] at half
    omega
  have valid : (standInDistance + n).isValidChar := by
    simp only [Nat.isValidChar, standInDistance]
    omega
  have value : (Char.ofNat (standInDistance + n)).toNat = standInDistance + n := by
    rw [Char.ofNat, dif_pos valid]
    rfl
  simp [codePoint, charOfCodePoint, half, value]

/-- Joining is undone by splitting. -/
theorem splitSurrogates_joinSurrogates {high low : Nat} (isHigh : isHighSurrogate high = true)
    (isLow : isLowSurrogate low = true) :
    splitSurrogates (joinSurrogates high low) = (high, low) := by
  have highBounds : 0xD800 ≤ high ∧ high ≤ 0xDBFF := by
    simpa [isHighSurrogate] using isHigh
  have lowBounds : 0xDC00 ≤ low ∧ low ≤ 0xDFFF := by
    simpa [isLowSurrogate] using isLow
  have offset : joinSurrogates high low - 0x10000 = (high - 0xD800) * 0x400 + (low - 0xDC00) := by
    unfold joinSurrogates
    omega
  rw [splitSurrogates, offset]
  exact Prod.ext (by dsimp only; omega) (by dsimp only; omega)

end VersionRange
