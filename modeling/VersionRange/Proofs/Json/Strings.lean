import Mathlib.Data.Nat.Digits.Defs
import VersionRange.Json.Printer
import VersionRange.Json.Reader
import VersionRange.Proofs.Fallible

/-!
# Rereading strings

A string is written with escapes and read back escape by escape.  What is read is what was
written, except that two halves of a surrogate pair that stood next to each other have become
the one character that they name.
-/

namespace VersionRange

open Fallible

namespace Json

/-- The characters with the halves of each pair, one behind the other, put together. -/
def joinHalves : List Char → List Char
  | c :: d :: rest =>
    if isHighSurrogate (codePoint c) && isLowSurrogate (codePoint d) then
      Char.ofNat (joinSurrogates (codePoint c) (codePoint d)) :: joinHalves rest
    else c :: joinHalves (d :: rest)
  | short => short

/-- The text that is read of a string that was written. -/
def joined (s : String) : String :=
  String.ofList (joinHalves s.toList)

theorem joinHalves_of_no_standIn {s : List Char} (whole : ∀ c ∈ s, isStandIn c = false) :
    joinHalves s = s := by
  fun_induction joinHalves s with
  | case1 c d rest pair ih =>
      have isHigh : isHighSurrogate (codePoint c) = true := (Bool.and_eq_true_iff.mp pair).1
      have standIn := whole c List.mem_cons_self
      rw [isStandIn, isSurrogate, isHigh, Bool.true_or] at standIn
      cases standIn
  | case2 c d rest apart ih => rw [ih fun e member => whole e (List.mem_cons_of_mem _ member)]
  | case3 => rfl

theorem joined_of_no_standIn {s : String} (whole : ∀ c ∈ s.toList, isStandIn c = false) :
    joined s = s := by
  rw [joined, joinHalves_of_no_standIn whole, String.ofList_toList]

theorem isSurrogate_iff {n : Nat} : isSurrogate n = true ↔ 0xD800 ≤ n ∧ n ≤ 0xDFFF := by
  simp only [isSurrogate, isHighSurrogate, isLowSurrogate, Bool.or_eq_true, Bool.and_eq_true,
    decide_eq_true_eq]
  omega

theorem toNat_not_isSurrogate (c : Char) : isSurrogate c.toNat = false := by
  have valid : c.toNat.isValidChar := c.valid
  rw [← Bool.not_eq_true, isSurrogate_iff]
  simp only [Nat.isValidChar] at valid
  omega

/-- A character counts as itself, or as the half that it stands in for. -/
theorem codePoint_cases (c : Char) :
    (isSurrogate (codePoint c) = true ∧ c.toNat = standInDistance + codePoint c) ∨
      (isSurrogate (codePoint c) = false ∧ c.toNat = codePoint c) := by
  by_cases half : isSurrogate (c.toNat - standInDistance) = true
  · have value : codePoint c = c.toNat - standInDistance := by rw [codePoint, if_pos half]
    have bounds := isSurrogate_iff.mp half
    rw [value]
    exact .inl ⟨half, by omega⟩
  · have value : codePoint c = c.toNat := by rw [codePoint, if_neg half]
    rw [value]
    exact .inr ⟨toNat_not_isSurrogate c, rfl⟩

theorem charOfCodePoint_codePoint (c : Char) : charOfCodePoint (codePoint c) = c := by
  rcases codePoint_cases c with ⟨half, value⟩ | ⟨whole, value⟩
  · rw [charOfCodePoint, if_pos half, ← value, Char.ofNat_toNat]
  · rw [charOfCodePoint, if_neg (by simp [whole]), ← value, Char.ofNat_toNat]

theorem joinSurrogates_splitSurrogates {n : Nat} (large : 0x10000 ≤ n) :
    joinSurrogates (splitSurrogates n).1 (splitSurrogates n).2 = n := by
  unfold joinSurrogates splitSurrogates
  dsimp only
  omega

theorem isHighSurrogate_splitSurrogates (c : Char) :
    isHighSurrogate (splitSurrogates c.toNat).1 = true := by
  have bound : c.toNat < 0x110000 := by
    have valid : c.toNat.isValidChar := c.valid
    simp only [Nat.isValidChar] at valid
    omega
  rw [isHighSurrogate, Bool.and_eq_true, decide_eq_true_eq, decide_eq_true_eq]
  simp only [splitSurrogates]
  omega

theorem isLowSurrogate_splitSurrogates (n : Nat) :
    isLowSurrogate (splitSurrogates n).2 = true := by
  rw [isLowSurrogate, Bool.and_eq_true, decide_eq_true_eq, decide_eq_true_eq]
  simp only [splitSurrogates]
  omega

theorem hexValue?_digitChar {n : Nat} (small : n < 16) :
    hexValue? (Nat.digitChar n) = some n := by
  revert n
  decide

theorem hexNumber?_append_singleton {digits : List Char} {n k : Nat}
    (front : hexNumber? digits = some n) (small : k < 16) :
    hexNumber? (digits ++ [Nat.digitChar k]) = some (16 * n + k) := by
  rw [hexNumber?] at front ⊢
  simp [List.foldlM_append, front, hexValue?_digitChar small]

theorem hexNumber?_toDigits (n : Nat) : hexNumber? (Nat.toDigits 16 n) = some n := by
  induction n using Nat.base_induction 16 (by decide) with
  | single m small =>
      rw [Nat.toDigits_of_lt_base small]
      simp [hexNumber?, hexValue?_digitChar small]
  | digit m k small positive ih =>
      rw [← Nat.toDigits_append_toDigits (by decide) positive small,
        Nat.toDigits_of_lt_base small]
      exact hexNumber?_append_singleton ih small

theorem hexNumber?_zeros_append (count : Nat) (digits : List Char) :
    hexNumber? (List.replicate count '0' ++ digits) = hexNumber? digits := by
  induction count with
  | zero => rfl
  | succ count ih => exact ih

theorem hexNumber?_hexDigits (width n : Nat) : hexNumber? (hexDigits width n) = some n := by
  rw [hexDigits, hexNumber?_zeros_append, hexNumber?_toDigits]

theorem length_hexDigits {n : Nat} (small : n < 0x10000) : (hexDigits 4 n).length = 4 := by
  have few : (Nat.toDigits 16 n).length ≤ 4 := Nat.toDigits_length 16 n 4 (by decide) small
  simp only [hexDigits, List.length_append, List.length_replicate]
  omega

theorem small_of_isSurrogate {n : Nat} (half : isSurrogate n = true) : n < 0x10000 := by
  have bounds := isSurrogate_iff.mp half
  omega

theorem isSurrogate_of_isHighSurrogate {n : Nat} (isHigh : isHighSurrogate n = true) :
    isSurrogate n = true := by
  rw [isSurrogate, isHigh, Bool.true_or]

theorem isSurrogate_of_isLowSurrogate {n : Nat} (isLow : isLowSurrogate n = true) :
    isSurrogate n = true := by
  rw [isSurrogate, isLow, Bool.or_true]

theorem not_isLowSurrogate_of_isHighSurrogate {n : Nat} (isHigh : isHighSurrogate n = true) :
    isLowSurrogate n = false := by
  simp only [isHighSurrogate, isLowSurrogate, Bool.and_eq_true, decide_eq_true_eq,
    Bool.and_eq_false_iff, decide_eq_false_iff_not] at isHigh ⊢
  omega

/-- How a character may stand in a string. -/
inductive Escape (c : Char) : List Char → Prop
  | plain (noQuote : c ≠ '"') (noBackslash : c ≠ '\\') (visible : ' ' ≤ c)
      (shown : c ≤ '~') :
      Escape c [c]
  | letter {l : Char} (names : escapedChar? l = some c) : Escape c ['\\', l]
  | unit {n : Nat} (number : codePoint c = n) (small : n < 0x10000) : Escape c (unitEscape n)
  | pair {high low : Nat} (isHigh : isHighSurrogate high = true)
      (isLow : isLowSurrogate low = true) (names : Char.ofNat (joinSurrogates high low) = c)
      (whole : isSurrogate (codePoint c) = false) :
      Escape c (unitEscape high ++ unitEscape low)

theorem escape_charEscape (c : Char) : Escape c (charEscape c) := by
  unfold charEscape
  split
  next quoting =>
    have either : c = '"' ∨ c = '\\' := by simpa using quoting
    rcases either with rfl | rfl <;> exact .letter rfl
  next notQuoting =>
    obtain ⟨noQuote, noBackslash⟩ : c ≠ '"' ∧ c ≠ '\\' := by simpa using notQuoting
    split
    next same => exact same ▸ .letter rfl
    split
    next same => exact same ▸ .letter rfl
    split
    next same => exact same ▸ .letter rfl
    split
    next same => exact same ▸ .letter rfl
    split
    next same => exact same ▸ .letter rfl
    split
    next shown =>
      obtain ⟨visible, shown⟩ : ' ' ≤ c ∧ c ≤ '~' := by simpa using shown
      exact .plain noQuote noBackslash visible shown
    split
    next small => exact .unit rfl small
    next large =>
      have whole : isSurrogate (codePoint c) = false := by
        cases half : isSurrogate (codePoint c) with
        | false => rfl
        | true => exact absurd (small_of_isSurrogate half) large
      have value : c.toNat = codePoint c := by
        rcases codePoint_cases c with ⟨half, -⟩ | ⟨-, value⟩
        · rw [whole] at half
          cases half
        · exact value
      have names : Char.ofNat (joinSurrogates (splitSurrogates c.toNat).1
          (splitSurrogates c.toNat).2) = c := by
        rw [joinSurrogates_splitSurrogates (by omega), Char.ofNat_toNat]
      exact .pair (isHighSurrogate_splitSurrogates c) (isLowSurrogate_splitSurrogates _) names
        whole

theorem toNat_le_of_escapedChar? {l c : Char} (names : escapedChar? l = some c) :
    c.toNat ≤ 0x7F := by
  unfold escapedChar? at names
  split at names <;> cases names <;> decide

/-- A half is written by its number. -/
theorem charEscape_of_isSurrogate {c : Char} (half : isSurrogate (codePoint c) = true) :
    charEscape c = unitEscape (codePoint c) := by
  have far : standInDistance ≤ c.toNat := by
    rcases codePoint_cases c with ⟨-, value⟩ | ⟨whole, -⟩
    · omega
    · rw [half] at whole
      cases whole
  have beyond : 0x7F < c.toNat := Nat.lt_of_lt_of_le (by decide) far
  have escape := escape_charEscape c
  generalize charEscape c = chars at escape
  cases escape with
  | plain _ _ _ shown =>
      have bound : c.toNat ≤ '~'.toNat := shown
      change c.toNat ≤ 0x7E at bound
      omega
  | letter names =>
      have bound := toNat_le_of_escapedChar? names
      omega
  | unit number _ => rw [number]
  | pair _ _ _ whole =>
      rw [half] at whole
      cases whole

theorem ne_of_escapedChar? {l c : Char} (names : escapedChar? l = some c) : l ≠ 'u' := by
  rintro rfl
  simp [escapedChar?] at names

/-- What stands behind the number of a half of a pair does not complete it. -/
def Apart (n : Nat) (tail : List Char) : Prop :=
  isHighSurrogate n = true → ∀ more, tail = '\\' :: 'u' :: more →
    ∃ second, hexNumber? (more.take 4) = some second ∧ isLowSurrogate second = false

theorem take_unit {n : Nat} (small : n < 0x10000) (tail : List Char) :
    (hexDigits 4 n ++ tail).take 4 = hexDigits 4 n :=
  List.take_left' (length_hexDigits small)

theorem drop_unit {n : Nat} (small : n < 0x10000) (tail : List Char) :
    (hexDigits 4 n ++ tail).drop 4 = tail :=
  List.drop_left' (length_hexDigits small)

theorem apart_charEscape {n : Nat} {d : Char}
    (alone : (isHighSurrogate n && isLowSurrogate (codePoint d)) = false) (tail : List Char) :
    Apart n (charEscape d ++ tail) := by
  intro isHigh more split
  rw [isHigh, Bool.true_and] at alone
  have escape := escape_charEscape d
  generalize charEscape d = chars at escape split
  cases escape with
  | plain _ noBackslash => exact absurd (List.cons.inj split).1 noBackslash
  | letter names =>
      exact absurd (List.cons.inj (List.cons.inj split).2).1 (ne_of_escapedChar? names)
  | @unit second number small =>
      obtain rfl : hexDigits 4 second ++ tail = more :=
        (List.cons.inj (List.cons.inj split).2).2
      exact ⟨second, by rw [take_unit small, hexNumber?_hexDigits], number ▸ alone⟩
  | @pair high low isHigh isLow names whole =>
      obtain rfl : hexDigits 4 high ++ unitEscape low ++ tail = more :=
        (List.cons.inj (List.cons.inj split).2).2
      have small := small_of_isSurrogate (isSurrogate_of_isHighSurrogate isHigh)
      refine ⟨high, ?_, not_isLowSurrogate_of_isHighSurrogate isHigh⟩
      rw [List.append_assoc, take_unit small, hexNumber?_hexDigits]

theorem apart_quote (n : Nat) (rest : List Char) : Apart n ('"' :: rest) := by
  intro _ more split
  cases (List.cons.inj split).1

theorem readUnicode_unit {n : Nat} {tail : List Char} (offset : Nat) (small : n < 0x10000)
    (closed : tail ≠ []) (apart : Apart n tail) :
    readUnicode offset (hexDigits 4 n ++ tail) = .ok (charOfCodePoint n, 5) := by
  unfold readUnicode
  rw [drop_unit small, take_unit small, hexNumber?_hexDigits, if_neg (by simpa using closed)]
  dsimp only
  split
  next more isPair =>
    obtain ⟨second, number, notLow⟩ := apart (Bool.and_eq_true_iff.mp isPair).1 more rfl
    simp [number, notLow]
  · rfl

theorem readUnicode_pair {high low : Nat} {tail : List Char} (offset : Nat)
    (isHigh : isHighSurrogate high = true) (isLow : isLowSurrogate low = true)
    (closed : tail ≠ []) :
    readUnicode offset (hexDigits 4 high ++ (unitEscape low ++ tail)) =
      .ok (Char.ofNat (joinSurrogates high low), 11) := by
  have smallHigh := small_of_isSurrogate (isSurrogate_of_isHighSurrogate isHigh)
  have smallLow := small_of_isSurrogate (isSurrogate_of_isLowSurrogate isLow)
  have behind : (hexDigits 4 high ++ (unitEscape low ++ tail)).drop 10 = tail := by
    have length : (hexDigits 4 high ++ unitEscape low).length = 10 := by
      simp [unitEscape, length_hexDigits smallHigh, length_hexDigits smallLow]
    rw [← List.append_assoc, ← length, List.drop_left]
  unfold readUnicode
  rw [drop_unit smallHigh, take_unit smallHigh, hexNumber?_hexDigits, behind,
    if_neg (by simp [unitEscape])]
  have follows : (isHighSurrogate high && !tail.isEmpty) = true := by
    rw [isHigh, Bool.true_and]
    simpa using closed
  simp only [follows, unitEscape, List.cons_append, take_unit smallLow, hexNumber?_hexDigits]
  exact if_pos isLow

/-- The characters are read as the text up to the closing quote, wherever they stand. -/
def ReadsAs (start : Nat) (chars text rest : List Char) : Prop :=
  ∀ offset, ∃ finish, readStringFrom start offset 0 chars = .ok (text, ⟨finish, rest⟩)

theorem readStringFrom_skip (start offset : Nat) (front rest : List Char) :
    readStringFrom start offset front.length (front ++ rest) =
      readStringFrom start (offset + front.length) 0 rest := by
  induction front generalizing offset with
  | nil => rfl
  | cons c front ih =>
      rw [List.length_cons, List.cons_append, readStringFrom, ih]
      congr 1
      omega

section ReadsAs

variable {start : Nat} {tail text rest : List Char}

theorem readsAs_quote (start : Nat) (rest : List Char) : ReadsAs start ('"' :: rest) [] rest :=
  fun offset => ⟨offset + 1, rfl⟩

/-- A backslash and what belongs to it are read as one character. -/
theorem readsAs_backslash {c : Char} (front : List Char)
    (escape : ∀ offset, readEscape start offset (front ++ tail) = .ok (c, front.length))
    (behind : ReadsAs start tail text rest) :
    ReadsAs start ('\\' :: (front ++ tail)) (c :: text) rest := by
  intro offset
  obtain ⟨finish, read⟩ := behind (offset + 1 + front.length)
  refine ⟨finish, ?_⟩
  rw [readStringFrom, if_neg (by decide), if_pos rfl, escape, ok_bind]
  dsimp only
  rw [readStringFrom_skip, read]
  rfl

theorem readsAs_pair {high low : Nat} (isHigh : isHighSurrogate high = true)
    (isLow : isLowSurrogate low = true) (closed : tail ≠ [])
    (behind : ReadsAs start tail text rest) :
    ReadsAs start (unitEscape high ++ unitEscape low ++ tail)
      (Char.ofNat (joinSurrogates high low) :: text) rest := by
  have smallHigh := small_of_isSurrogate (isSurrogate_of_isHighSurrogate isHigh)
  have smallLow := small_of_isSurrogate (isSurrogate_of_isLowSurrogate isLow)
  have length : ('u' :: (hexDigits 4 high ++ unitEscape low)).length = 11 := by
    simp [unitEscape, length_hexDigits smallHigh, length_hexDigits smallLow]
  refine readsAs_backslash ('u' :: (hexDigits 4 high ++ unitEscape low)) ?_ behind
  intro offset
  rw [length, List.cons_append, List.append_assoc]
  exact readUnicode_pair offset isHigh isLow closed

theorem readsAs_escape {c : Char} {chars : List Char} (escape : Escape c chars)
    (closed : tail ≠ []) (apart : Apart (codePoint c) tail)
    (behind : ReadsAs start tail text rest) : ReadsAs start (chars ++ tail) (c :: text) rest := by
  cases escape with
  | plain noQuote noBackslash visible =>
      have bound : ' '.toNat ≤ c.toNat := visible
      change 0x20 ≤ c.toNat at bound
      intro offset
      obtain ⟨finish, read⟩ := behind (offset + 1)
      refine ⟨finish, ?_⟩
      rw [List.singleton_append, readStringFrom, if_neg noQuote, if_neg noBackslash,
        if_neg (by omega), read]
      rfl
  | @letter l names =>
      refine readsAs_backslash [l] ?_ behind
      intro offset
      rw [List.singleton_append, readEscape.eq_3 _ _ _ _ (ne_of_escapedChar? names), names]
      rfl
  | @unit n number small =>
      have length : ('u' :: hexDigits 4 n).length = 5 := by
        simp [length_hexDigits small]
      refine readsAs_backslash ('u' :: hexDigits 4 n) ?_ behind
      intro offset
      rw [number] at apart
      have names : charOfCodePoint n = c := by rw [← number, charOfCodePoint_codePoint]
      rw [length, ← names]
      exact readUnicode_unit offset small closed apart
  | pair isHigh isLow names whole =>
      rw [← names]
      exact readsAs_pair isHigh isLow closed behind

end ReadsAs

theorem readsAs_escaped (start : Nat) (s rest : List Char) :
    ReadsAs start (s.flatMap charEscape ++ '"' :: rest) (joinHalves s) rest := by
  fun_induction joinHalves s with
  | case1 c d behind pair ih =>
      obtain ⟨isHigh, isLow⟩ := Bool.and_eq_true_iff.mp pair
      have first := charEscape_of_isSurrogate (isSurrogate_of_isHighSurrogate isHigh)
      have second := charEscape_of_isSurrogate (isSurrogate_of_isLowSurrogate isLow)
      rw [List.flatMap_cons, List.flatMap_cons, first, second, ← List.append_assoc,
        List.append_assoc]
      exact readsAs_pair isHigh isLow (by simp) ih
  | case2 c d behind alone ih =>
      have apart := apart_charEscape (Bool.not_eq_true _ ▸ alone)
        (behind.flatMap charEscape ++ '"' :: rest)
      rw [← List.append_assoc, ← List.flatMap_cons] at apart
      rw [List.flatMap_cons, List.append_assoc]
      exact readsAs_escape (escape_charEscape c) (by simp) apart ih
  | case3 short noPair =>
      match short with
      | [] => exact readsAs_quote start rest
      | [c] =>
          rw [List.flatMap_singleton]
          exact readsAs_escape (escape_charEscape c) (by simp) (apart_quote _ _)
            (readsAs_quote start rest)
      | c :: d :: behind => exact absurd rfl (noPair c d behind)

/-- A string is read to its end, whatever stands behind it. -/
theorem readString_stringText (s : String) (offset : Nat) (rest : List Char) :
    ∃ finish, readString ⟨offset, (stringText s).toList ++ rest⟩ =
      .ok (joined s, ⟨finish, rest⟩) := by
  obtain ⟨finish, read⟩ := readsAs_escaped offset s.toList rest (offset + 1)
  have written : ((stringText s).toList ++ rest).drop 1 =
      s.toList.flatMap charEscape ++ '"' :: rest := by
    simp [stringText]
  refine ⟨finish, ?_⟩
  rw [readString, written, read]
  rfl

end Json

end VersionRange
