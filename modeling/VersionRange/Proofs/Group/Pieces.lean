import VersionRange.Proofs.Group.Rendering

/-!
# Pieces of a group text

Any text is a sequence of characters that are neither blanks nor commas, each with the run
of blanks and commas behind it.  A run ends a token unless it is empty or follows a
character of an operator, so that this sequence falls into one piece for each token.
-/

namespace VersionRange

open Fallible PartialVersion

/-- A character in front of a word belongs to it. -/
theorem words_cons_cons {c d : Char} (first : isBlank c = false) (second : isBlank d = false)
    (rest : List Char) : words (c :: d :: rest) = (words (d :: rest)).modifyHead (c :: ·) := by
  obtain ⟨piece, pieces, split⟩ := List.exists_cons_of_ne_nil (List.splitOnP_ne_nil isBlank rest)
  simp [words, List.splitOnP_cons_eq_if_modifyHead, first, second, split]

namespace Group

/-- Characters that are neither blanks nor commas, each with a run behind it. -/
structure Tidy (pairs : List (Char × List Char)) : Prop where
  plain : ∀ pair ∈ pairs, isBlank pair.1 = false ∧ pair.1 ≠ ','
  spacing : ∀ pair ∈ pairs, Spacing pair.2

theorem tidy_cons {pair : Char × List Char} {rest : List (Char × List Char)} :
    Tidy (pair :: rest) ↔
      ((isBlank pair.1 = false ∧ pair.1 ≠ ',') ∧ Spacing pair.2) ∧ Tidy rest := by
  constructor
  · rintro ⟨plain, spacing⟩
    rw [List.forall_mem_cons] at plain spacing
    exact ⟨⟨plain.1, spacing.1⟩, plain.2, spacing.2⟩
  · rintro ⟨⟨plain, spacing⟩, rest⟩
    exact ⟨List.forall_mem_cons.mpr ⟨plain, rest.plain⟩,
      List.forall_mem_cons.mpr ⟨spacing, rest.spacing⟩⟩

theorem Tidy.sharp {pairs : List (Char × List Char)} (tidy : Tidy pairs) :
    Sharp (spread pairs) := by
  cases pairs with
  | nil => exact sharp_nil
  | cons pair rest =>
      obtain ⟨⟨⟨notBlank, notComma⟩, -⟩, -⟩ := tidy_cons.mp tidy
      rintro c ⟨⟩
      simp [notBlank, notComma]

theorem exists_pairs (group : List Char) :
    ∃ lead pairs, Spacing lead ∧ Tidy pairs ∧ group = lead ++ spread pairs := by
  induction group with
  | nil => exact ⟨[], [], by simp [Spacing], ⟨by simp, by simp⟩, rfl⟩
  | cons c rest ih =>
      obtain ⟨lead, pairs, spacing, tidy, rfl⟩ := ih
      by_cases separates : isBlank c = true ∨ c = ','
      · exact ⟨c :: lead, pairs, List.forall_mem_cons.mpr ⟨separates, spacing⟩, tidy, rfl⟩
      · refine ⟨[], (c, lead) :: pairs, by simp [Spacing], tidy_cons.mpr ⟨⟨?_, spacing⟩, tidy⟩, ?_⟩
        · simpa using separates
        · rw [spread_cons, List.nil_append]

theorem joinOperators_of_sharp (after : Bool) {text : List Char} (sharp : Sharp text) :
    joinOperators after (text.map fun c => if c = ',' then ' ' else c) =
      joinOperators false (text.map fun c => if c = ',' then ' ' else c) := by
  cases text with
  | nil => rfl
  | cons c rest =>
      have plain := sharp c rfl
      simp only [not_or, Bool.not_eq_true] at plain
      simp [joinOperators, plain]

theorem joinOperators_glued {c : Char} {run : List Char} (notComma : c ≠ ',')
    (spacing : Spacing run) (glued : run = [] ∨ isOperatorChar c = true) {rest : List Char}
    (sharp : Sharp rest) :
    joinOperators false ((c :: (run ++ rest)).map fun c => if c = ',' then ' ' else c) =
      c :: joinOperators false (rest.map fun c => if c = ',' then ' ' else c) := by
  rw [List.map_cons, if_neg notComma, List.map_append, joinOperators, Bool.false_and,
    if_neg Bool.false_ne_true, ← joinOperators_of_sharp (isOperatorChar c) sharp]
  rcases glued with rfl | operator
  · rfl
  · rw [operator, joinOperators_true_append (allBlank_of_spacing spacing)]

/-- A character holds on to what follows, if no run stands between them or the run is
dropped. -/
theorem tokens_glued {c : Char} {run : List Char} (plain : isBlank c = false ∧ c ≠ ',')
    (spacing : Spacing run) (glued : run = [] ∨ isOperatorChar c = true) {rest : List Char}
    (sharp : Sharp rest) {token : List Char} {others : List (List Char)}
    (behind : tokens rest = token :: others) :
    tokens (c :: (run ++ rest)) = (c :: token) :: others := by
  cases rest with
  | nil => cases behind
  | cons d rest =>
      have next := sharp d rfl
      simp only [not_or, Bool.not_eq_true] at next
      rw [tokens, joinOperators_glued plain.2 spacing glued sharp]
      rw [tokens] at behind
      rw [List.map_cons, if_neg next.2, joinOperators, Bool.false_and,
        if_neg Bool.false_ne_true] at behind ⊢
      rw [words_cons_cons plain.1 next.1, behind]
      rfl

/-- A run behind another character separates it from what follows. -/
theorem tokens_apart {c : Char} {run : List Char} (plain : isBlank c = false ∧ c ≠ ',')
    (spacing : Spacing run) (some : run ≠ []) (notOperator : isOperatorChar c = false)
    (rest : List Char) : tokens (c :: (run ++ rest)) = [c] :: tokens rest := by
  have solid : Solid [c] := ⟨by simp, by simpa using plain, by simpa using notOperator⟩
  exact tokens_append_gap_of_solid solid some spacing rest

theorem tokens_alone {c : Char} {run : List Char} (plain : isBlank c = false ∧ c ≠ ',')
    (spacing : Spacing run) : tokens (c :: (run ++ [])) = [[c]] := by
  by_cases glued : run = [] ∨ isOperatorChar c = true
  · rw [tokens, joinOperators_glued plain.2 spacing glued sharp_nil]
    exact words_of_solid (by simp) (List.forall_mem_singleton.mpr plain.1)
  · simp only [not_or, Bool.not_eq_true] at glued
    exact tokens_apart plain spacing glued.1 glued.2 []

/-- Characters with a run behind the last one and behind operators only. -/
structure Piece (piece : List (Char × List Char)) : Prop where
  nonempty : piece ≠ []
  tidy : Tidy piece
  inner : ∀ pair ∈ piece.dropLast, pair.2 = [] ∨ isOperatorChar pair.1 = true

/-- Pieces with a run behind each but the last. -/
inductive Pieces : List (List (Char × List Char)) → Prop
  | nil : Pieces []
  | last {piece : List (Char × List Char)} (form : Piece piece) : Pieces [piece]
  | cons {piece next : List (Char × List Char)} {rest : List (List (Char × List Char))}
      (form : Piece piece) (run : ∀ pair, piece.getLast? = some pair → pair.2 ≠ [])
      (others : Pieces (next :: rest)) : Pieces (piece :: next :: rest)

theorem Pieces.of_cons {piece : List (Char × List Char)} {rest : List (List (Char × List Char))}
    (form : Pieces (piece :: rest)) :
    Piece piece ∧ (rest ≠ [] → ∀ pair, piece.getLast? = some pair → pair.2 ≠ []) ∧
      Pieces rest := by
  cases form with
  | last form => exact ⟨form, fun more => absurd rfl more, .nil⟩
  | cons form run others => exact ⟨form, fun _ => run, others⟩

/-- A piece without operators has its run behind the last character. -/
theorem exists_run {piece : List (Char × List Char)} (nonempty : piece ≠ [])
    (inner : ∀ pair ∈ piece.dropLast, pair.2 = [] ∨ isOperatorChar pair.1 = true)
    (plain : ∀ c ∈ piece.map Prod.fst, isOperatorChar c = false) :
    ∃ c run, piece.getLast? = some (c, run) ∧ spread piece = piece.map Prod.fst ++ run := by
  induction piece with
  | nil => exact absurd rfl nonempty
  | cons pair rest ih =>
      obtain ⟨c, run⟩ := pair
      cases rest with
      | nil => exact ⟨c, run, rfl, by simp [spread]⟩
      | cons next rest =>
          rw [List.dropLast_cons_cons, List.forall_mem_cons] at inner
          rw [List.map_cons, List.forall_mem_cons] at plain
          obtain ⟨d, last, ends, whole⟩ := ih (by simp) inner.2 plain.2
          have noRun : run = [] := inner.1.resolve_right (by simp [plain.1])
          refine ⟨d, last, by rw [List.getLast?_cons_cons, ends], ?_⟩
          rw [spread_cons, whole, noRun]
          rfl

theorem Piece.glue {pair : Char × List Char} {piece : List (Char × List Char)}
    (form : Piece piece) (plain : (isBlank pair.1 = false ∧ pair.1 ≠ ',') ∧ Spacing pair.2)
    (glued : pair.2 = [] ∨ isOperatorChar pair.1 = true) : Piece (pair :: piece) where
  nonempty := by simp
  tidy := tidy_cons.mpr ⟨plain, form.tidy⟩
  inner := by
    rw [List.dropLast_cons_of_ne_nil form.nonempty]
    exact List.forall_mem_cons.mpr ⟨glued, form.inner⟩

theorem Pieces.glue {pair : Char × List Char} {piece : List (Char × List Char)}
    {rest : List (List (Char × List Char))} (form : Pieces (piece :: rest))
    (plain : (isBlank pair.1 = false ∧ pair.1 ≠ ',') ∧ Spacing pair.2)
    (glued : pair.2 = [] ∨ isOperatorChar pair.1 = true) : Pieces ((pair :: piece) :: rest) := by
  cases form with
  | last form => exact .last (form.glue plain glued)
  | cons form run others =>
      refine .cons (form.glue plain glued) (fun last ends => run last ?_) others
      rwa [List.getLast?_cons_of_ne_nil form.nonempty] at ends

theorem exists_pieces {pairs : List (Char × List Char)} (tidy : Tidy pairs) :
    ∃ pieces, Pieces pieces ∧ pairs = pieces.flatten ∧
      tokens (spread pairs) = pieces.map fun piece => piece.map Prod.fst := by
  -- From the back: a character joins the piece behind it, or begins a piece of its own.
  induction pairs with
  | nil => exact ⟨[], .nil, rfl, rfl⟩
  | cons pair rest ih =>
      obtain ⟨c, run⟩ := pair
      obtain ⟨⟨plain, spacing⟩, restTidy⟩ := tidy_cons.mp tidy
      obtain ⟨pieces, form, rfl, behind⟩ := ih restTidy
      have alone : Piece [(c, run)] :=
        ⟨by simp, tidy_cons.mpr ⟨⟨plain, spacing⟩, by simp, by simp⟩, by simp⟩
      cases pieces with
      | nil =>
          refine ⟨[[(c, run)]], .last alone, rfl, ?_⟩
          rw [List.flatten_nil, spread_cons]
          exact tokens_alone plain spacing
      | cons piece pieces =>
          rw [spread_cons]
          by_cases glued : run = [] ∨ isOperatorChar c = true
          · refine ⟨((c, run) :: piece) :: pieces, ?_, rfl, ?_⟩
            · exact form.glue ⟨plain, spacing⟩ glued
            · rw [tokens_glued plain spacing glued restTidy.sharp behind]
              rfl
          · simp only [not_or, Bool.not_eq_true] at glued
            refine ⟨[(c, run)] :: piece :: pieces, .cons alone ?_ form, rfl, ?_⟩
            · rintro pair ⟨⟩
              exact glued.1
            · rw [tokens_apart plain spacing glued.1 glued.2, behind]
              rfl

end Group

end VersionRange
