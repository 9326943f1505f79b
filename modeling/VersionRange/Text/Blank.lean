import VersionRange.Text.CharTable

/-!
# Blanks

Blanks are the white space of Unicode together with the four information
separators.  This file has the three things done with them: trimming a text,
cutting it into words, and cutting it at a separator.
-/

namespace VersionRange

/-- The code point ranges of the blank characters. -/
def blankRanges : List (Nat × Nat) :=
  [(0x9, 0xD), (0x1C, 0x20), (0x85, 0x85), (0xA0, 0xA0), (0x1680, 0x1680),
   (0x2000, 0x200A), (0x2028, 0x2029), (0x202F, 0x202F), (0x205F, 0x205F),
   (0x3000, 0x3000)]

/-- White space in the wide sense used everywhere in this library. -/
def isBlank (c : Char) : Bool :=
  inRanges blankRanges c

/-- The text without the blanks at its two ends. -/
def trimBlanks (text : List Char) : List Char :=
  ((text.dropWhile isBlank).reverse.dropWhile isBlank).reverse

/-- The maximal runs of characters that are not blank, in order. -/
def words (text : List Char) : List (List Char) :=
  (text.splitOnP isBlank).filter fun word => !word.isEmpty

/-- A text is blank when every character of it is; the empty text is. -/
def allBlank (text : List Char) : Bool :=
  text.all isBlank

@[simp] theorem words_nil : words [] = [] := by
  decide

theorem isBlank_space : isBlank ' ' = true := by
  decide

/-- Every white space character of the core library is a blank. -/
theorem isBlank_of_isWhitespace {c : Char} (white : c.isWhitespace = true) :
    isBlank c = true := by
  simp only [Char.isWhitespace, Bool.or_eq_true, decide_eq_true_eq] at white
  rcases white with ((rfl | rfl) | rfl) | rfl <;> decide

end VersionRange
