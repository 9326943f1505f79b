import VersionRange.Proofs.Text.Cutting
import VersionRange.Text.Blank

/-!
# Blanks around and between words

Trimming takes blanks off both ends and nothing else, and the words of a text are
those in front of any of its blanks followed by those behind it.
-/

namespace VersionRange

theorem mem_allBlank {text : List Char} (blank : allBlank text = true) {c : Char}
    (member : c ∈ text) : isBlank c = true :=
  List.all_eq_true.mp blank c member

theorem trimBlanks_around (text : List Char) :
    ∃ front back, allBlank front = true ∧ allBlank back = true ∧
      text = front ++ trimBlanks text ++ back := by
  have frontSplit := List.takeWhile_append_dropWhile (p := isBlank) (l := text)
  have backSplit := List.takeWhile_append_dropWhile (p := isBlank)
    (l := (text.dropWhile isBlank).reverse)
  refine ⟨text.takeWhile isBlank, ((text.dropWhile isBlank).reverse.takeWhile isBlank).reverse,
    List.all_takeWhile, ?_, ?_⟩
  · rw [allBlank, List.all_reverse]
    exact List.all_takeWhile
  · rw [trimBlanks, List.append_assoc, ← List.reverse_append, backSplit, List.reverse_reverse,
      frontSplit]

theorem words_append_blank {c : Char} (blank : isBlank c = true) (front rest : List Char) :
    words (front ++ c :: rest) = words front ++ words rest := by
  rw [words, List.splitOnP_append_cons front rest blank, List.filter_append]
  rfl

theorem words_blank_cons {c : Char} (blank : isBlank c = true) (rest : List Char) :
    words (c :: rest) = words rest := by
  simpa using words_append_blank blank [] rest

theorem words_of_solid {word : List Char} (nonempty : word ≠ [])
    (solid : ∀ c ∈ word, isBlank c = false) : words word = [word] := by
  rw [words, List.splitOnP_eq_singleton solid]
  simpa using nonempty

theorem words_eq_nil_iff {text : List Char} : words text = [] ↔ allBlank text = true := by
  induction text with
  | nil => simp [allBlank]
  | cons c rest ih =>
      by_cases blank : isBlank c = true
      · rw [words_blank_cons blank, ih]
        simp [allBlank, blank]
      · obtain ⟨word, others, pieces⟩ :=
          List.exists_cons_of_ne_nil (List.splitOnP_ne_nil isBlank rest)
        refine iff_of_false ?_ ?_
        · rw [words, List.splitOnP_cons_eq_if_modifyHead, if_neg blank, pieces]
          simp
        · simp [allBlank, blank]

theorem exists_piece_of_mem {text : List Char} {c : Char} (member : c ∈ text)
    (solid : isBlank c = false) : ∃ piece ∈ text.splitOnP isBlank, c ∈ piece := by
  induction text with
  | nil => cases member
  | cons d rest ih =>
      rw [List.splitOnP_cons_eq_if_modifyHead]
      by_cases blank : isBlank d = true
      · have later : c ∈ rest := by
          rcases List.mem_cons.mp member with rfl | later
          · rw [solid] at blank
            cases blank
          · exact later
        obtain ⟨piece, among, inside⟩ := ih later
        rw [if_pos blank]
        exact ⟨piece, List.mem_cons_of_mem [] among, inside⟩
      · rw [if_neg blank]
        obtain ⟨first, others, pieces⟩ :=
          List.exists_cons_of_ne_nil (List.splitOnP_ne_nil isBlank rest)
        rw [pieces] at ih ⊢
        rw [List.modifyHead_cons]
        rcases List.mem_cons.mp member with rfl | later
        · exact ⟨c :: first, List.mem_cons_self, List.mem_cons_self⟩
        · obtain ⟨piece, among, inside⟩ := ih later
          rcases List.mem_cons.mp among with rfl | behind
          · exact ⟨d :: piece, List.mem_cons_self, List.mem_cons_of_mem d inside⟩
          · exact ⟨piece, List.mem_cons_of_mem (d :: first) behind, inside⟩

/-- What is not blank stands in a word. -/
theorem exists_word_of_mem {text : List Char} {c : Char} (member : c ∈ text)
    (solid : isBlank c = false) : ∃ word ∈ words text, c ∈ word := by
  obtain ⟨piece, among, inside⟩ := exists_piece_of_mem member solid
  refine ⟨piece, List.mem_filter.mpr ⟨among, ?_⟩, inside⟩
  simpa using List.ne_nil_of_mem inside

/-- The last word of a text ends as the text does. -/
theorem exists_last_word (front : List Char) {c : Char} (solid : isBlank c = false) :
    ∃ word ∈ words (front ++ [c]), word.getLast? = some c := by
  by_cases blanks : ∃ d ∈ front, isBlank d = true
  · obtain ⟨d, member, blank⟩ := blanks
    obtain ⟨before, behind, rfl⟩ := List.append_of_mem member
    obtain ⟨word, among, last⟩ := exists_last_word behind solid
    refine ⟨word, ?_, last⟩
    rw [List.append_assoc, List.cons_append, words_append_blank blank]
    exact List.mem_append_right (words before) among
  · have plain : ∀ d ∈ front ++ [c], isBlank d = false := by
      intro d member
      rcases List.mem_append.mp member with inFront | last
      · exact Bool.eq_false_iff.mpr fun blank => blanks ⟨d, inFront, blank⟩
      · rwa [List.mem_singleton.mp last]
    rw [words_of_solid (by simp) plain]
    exact ⟨front ++ [c], List.mem_singleton_self _, by simp⟩
termination_by front.length

/-- The part of a text behind its last blank. -/
theorem exists_unfinished (text : List Char) :
    ∃ unfinished, (∀ c ∈ unfinished, isBlank c = false) ∧
      (text = unfinished ∨ ∃ front c, isBlank c = true ∧ text = front ++ c :: unfinished) := by
  induction text with
  | nil => exact ⟨[], by simp, .inl rfl⟩
  | cons c rest ih =>
      obtain ⟨unfinished, solid, rfl | ⟨front, d, blank, rfl⟩⟩ := ih
      · by_cases blank : isBlank c = true
        · exact ⟨rest, solid, .inr ⟨[], c, blank, rfl⟩⟩
        · exact ⟨c :: rest, List.forall_mem_cons.mpr ⟨by simpa using blank, solid⟩, .inl rfl⟩
      · exact ⟨unfinished, solid, .inr ⟨c :: front, d, blank, rfl⟩⟩

/-- In front of a blank a word completes what a text has not finished, whatever it is. -/
theorem words_around (front : List Char) {back : List Char}
    (closes : ∀ c, back.head? = some c → isBlank c = true) :
    ∃ before unfinished after,
      (∀ c, unfinished.getLast? = some c → isBlank c = false ∧ front.getLast? = some c) ∧
        ∀ word, word ≠ [] → (∀ c ∈ word, isBlank c = false) →
          words (front ++ (word ++ back)) = before ++ (unfinished ++ word) :: after := by
  obtain ⟨unfinished, solid, split⟩ := exists_unfinished front
  obtain ⟨after, behind⟩ : ∃ after, ∀ text, words (text ++ back) = words text ++ after := by
    cases back with
    | nil => exact ⟨[], by simp⟩
    | cons c rest => exact ⟨words rest, fun text => words_append_blank (closes c rfl) text rest⟩
  have completed {word : List Char} (nonempty : word ≠ []) (plain : ∀ c ∈ word, isBlank c = false) :
      words (unfinished ++ word) = [unfinished ++ word] :=
    words_of_solid (by simp [nonempty]) (List.forall_mem_append.mpr ⟨solid, plain⟩)
  have last {c : Char} (last : unfinished.getLast? = some c) : isBlank c = false :=
    solid c (List.mem_of_getLast? last)
  rcases split with rfl | ⟨lead, blank, isBlank, rfl⟩
  · refine ⟨[], front, after, fun c same => ⟨last same, same⟩, fun word nonempty plain => ?_⟩
    rw [← List.append_assoc, behind, completed nonempty plain]
    rfl
  · refine ⟨words lead, unfinished, after, fun c same => ⟨last same, ?_⟩,
      fun word nonempty plain => ?_⟩
    · simp [List.getLast?_append, List.getLast?_cons, same]
    · rw [← List.append_assoc, behind, List.append_assoc, List.cons_append,
        words_append_blank isBlank, completed nonempty plain]
      simp

/-- Blanks at the ends of a text do not change its words. -/
theorem words_padded {front back : List Char} (frontBlank : allBlank front = true)
    (backBlank : allBlank back = true) (text : List Char) :
    words (front ++ text ++ back) = words text := by
  have left (rest : List Char) : words (front ++ rest) = words rest := by
    induction front with
    | nil => rfl
    | cons c front ih =>
        simp only [allBlank, List.all_cons, Bool.and_eq_true] at frontBlank
        rw [List.cons_append, words_blank_cons frontBlank.1, ih frontBlank.2]
  rw [List.append_assoc, left]
  cases back with
  | nil => rw [List.append_nil]
  | cons c back =>
      simp only [allBlank, List.all_cons, Bool.and_eq_true] at backBlank
      rw [words_append_blank backBlank.1, words_eq_nil_iff.mpr backBlank.2, List.append_nil]

end VersionRange
