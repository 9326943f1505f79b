import Mathlib.Data.List.Chain
import VersionRange.Proofs.Fallible
import VersionRange.Value.Order

/-!
# Sorting by an order that may fail

A sort that comes to an end has kept all elements, and has compared any two that it leaves
next to each other.  It fails only where two elements have no order.  If any two elements
have one, then the sort comes to an end, and those of which neither comes before the other
keep their sequence.
-/

namespace VersionRange

open Fallible

section Sorting

variable {α : Type} {less : α → α → Except Fault Bool}

/-- Two elements have been compared, and the first may stand in front of the second. -/
def InOrder (less : α → α → Except Fault Bool) (a b : α) : Prop :=
  less b a = .ok false ∨ less a b = .ok true

theorem drop_of_getElem? {xs : List α} {n : Nat} {a : α} (found : xs[n]? = some a) :
    xs.drop n = a :: xs.drop (n + 1) := by
  obtain ⟨bound, rfl⟩ := List.getElem?_eq_some_iff.mp found
  exact List.drop_eq_getElem_cons bound

theorem take_of_getElem? {xs : List α} {n : Nat} {a : α} (found : xs[n]? = some a) :
    xs.take (n + 1) = xs.take n ++ [a] := by
  rw [List.take_add_one, found]
  rfl

/-- An element is put between two neighbours to which it has been compared. -/
theorem bisectInsert_eq_ok {pivot : α} {xs ys : List α}
    (inserted : bisectInsert less pivot xs = .ok ys) :
    ∃ left right, xs = left ++ right ∧ ys = left ++ pivot :: right ∧
      (∀ x ∈ left.getLast?, less pivot x = .ok false) ∧
        ∀ y ∈ right.head?, less pivot y = .ok true := by
  fun_induction bisectInsert less pivot xs generalizing ys with
  | case1 xs outside =>
      cases inserted
      have empty : xs = [] := by
        have few := List.getElem?_eq_none_iff.mp outside
        apply List.eq_nil_of_length_eq_zero
        omega
      exact ⟨[], [], empty, rfl, by simp, by simp⟩
  | case2 xs middle found front back =>
      obtain ⟨below, compared, rest⟩ := bind_eq_ok_iff.mp inserted
      cases below with
      | true =>
          obtain ⟨placed, inFront, whole⟩ := bind_eq_ok_iff.mp rest
          cases whole
          obtain ⟨left, right, cut, rfl, last, head⟩ := front inFront
          refine ⟨left, right ++ xs.drop (xs.length / 2), ?_, by simp, last, ?_⟩
          · rw [← List.append_assoc, ← cut, List.take_append_drop]
          · rw [drop_of_getElem? found]
            cases right with
            | nil => simpa using compared
            | cons y others => simpa using head
      | false =>
          obtain ⟨placed, behind, whole⟩ := bind_eq_ok_iff.mp rest
          cases whole
          obtain ⟨left, right, cut, rfl, last, head⟩ := back behind
          refine ⟨xs.take (xs.length / 2 + 1) ++ left, right, ?_, by simp, ?_, head⟩
          · rw [List.append_assoc, ← cut, List.take_append_drop]
          · rw [take_of_getElem? found]
            cases left using List.reverseRecOn with
            | nil => simpa using compared
            | append_singleton others x =>
                rw [← List.append_assoc, List.getLast?_concat]
                rwa [List.getLast?_concat] at last

theorem bisectInsert_eq_error {pivot : α} {xs : List α} {fault : Fault}
    (fails : bisectInsert less pivot xs = .error fault) :
    ∃ x ∈ xs, less pivot x = .error fault := by
  fun_induction bisectInsert less pivot xs with
  | case1 xs outside => cases fails
  | case2 xs middle found front back =>
      rcases bind_eq_error_iff.mp fails with refused | ⟨below, -, rest⟩
      · exact ⟨middle, List.mem_of_getElem? found, refused⟩
      · cases below with
        | true =>
            simp only [if_true, bind_eq_error_iff, pure_eq_ok, reduceCtorEq, and_false,
              exists_false, or_false] at rest
            obtain ⟨x, member, refused⟩ := front rest
            exact ⟨x, List.mem_of_mem_take member, refused⟩
        | false =>
            simp only [Bool.false_eq_true, if_false, bind_eq_error_iff, pure_eq_ok, reduceCtorEq,
              and_false, exists_false, or_false] at rest
            obtain ⟨x, member, refused⟩ := back rest
            exact ⟨x, List.mem_of_mem_drop member, refused⟩

theorem perm_of_bisectInsert {pivot : α} {xs ys : List α}
    (inserted : bisectInsert less pivot xs = .ok ys) : ys.Perm (pivot :: xs) := by
  obtain ⟨left, right, rfl, rfl, -, -⟩ := bisectInsert_eq_ok inserted
  exact List.perm_middle

theorem isChain_of_bisectInsert {pivot : α} {xs ys : List α}
    (inserted : bisectInsert less pivot xs = .ok ys) (chain : xs.IsChain (InOrder less)) :
    ys.IsChain (InOrder less) := by
  obtain ⟨left, right, rfl, rfl, last, head⟩ := bisectInsert_eq_ok inserted
  obtain ⟨front, back, -⟩ := List.isChain_append.mp chain
  refine List.isChain_append.mpr ⟨front, List.isChain_cons.mpr ⟨?_, back⟩, ?_⟩
  · exact fun y first => .inr (head y first)
  · intro x isLast y isFirst
    obtain rfl := Option.some.inj isFirst
    exact .inl (last x isLast)

theorem runFrom_eq_ok {down : Bool} {last : α} {rest run others : List α}
    (found : runFrom less down last rest = .ok (run, others)) :
    rest = run ++ others ∧ (last :: run).IsChain fun a b => less b a = .ok down := by
  fun_induction runFrom less down last rest generalizing run others with
  | case1 last =>
      cases found
      exact ⟨rfl, List.isChain_singleton last⟩
  | case2 last next rest ih =>
      obtain ⟨below, compared, following⟩ := bind_eq_ok_iff.mp found
      by_cases same : (below == down) = true
      · rw [if_pos same] at following
        obtain ⟨⟨more, left⟩, goesOn, whole⟩ := bind_eq_ok_iff.mp following
        cases whole
        obtain ⟨rfl, chain⟩ := ih goesOn
        rw [beq_iff_eq.mp same] at compared
        exact ⟨rfl, List.isChain_cons_cons.mpr ⟨compared, chain⟩⟩
      · rw [if_neg same] at following
        cases following
        exact ⟨rfl, List.isChain_singleton last⟩

theorem runFrom_eq_error {down : Bool} {last : α} {rest : List α} {fault : Fault}
    (fails : runFrom less down last rest = .error fault) :
    ∃ a ∈ last :: rest, ∃ b ∈ last :: rest, less a b = .error fault := by
  fun_induction runFrom less down last rest with
  | case1 last => cases fails
  | case2 last next rest ih =>
      rcases bind_eq_error_iff.mp fails with refused | ⟨below, -, following⟩
      · exact ⟨next, by simp, last, by simp, refused⟩
      · split at following
        · rcases bind_eq_error_iff.mp following with goesOn | ⟨_, -, whole⟩
          · obtain ⟨a, first, b, second, refused⟩ := ih goesOn
            exact ⟨a, List.mem_cons_of_mem _ first, b, List.mem_cons_of_mem _ second, refused⟩
          · cases whole
        · cases following

/-- What is true of the run at the front, in the right direction, and is kept when an
element is put in its place, is true of the sorted list. -/
theorem sortChecked_induction {motive : List α → List α → Prop} {xs ys : List α}
    (sorted : sortChecked less xs = .ok ys) (short : xs.length ≤ 1 → motive xs xs)
    (down : ∀ run others, xs = run ++ others → (run.IsChain fun a b => less b a = .ok true) →
      motive run run.reverse)
    (up : ∀ run others, xs = run ++ others → (run.IsChain fun a b => less b a = .ok false) →
      motive run run)
    (insert : ∀ before pivot others done next, xs = before ++ pivot :: others →
      motive before done → bisectInsert less pivot done = .ok next →
        motive (before ++ [pivot]) next) :
    motive xs ys := by
  have fold (others before done : List α) (whole : xs = before ++ others)
      (start : motive before done)
      (rest : others.foldlM (fun sorted pivot => bisectInsert less pivot sorted) done = .ok ys) :
      motive xs ys := by
    induction others generalizing before done with
    | nil =>
        cases rest
        simpa [whole] using start
    | cons pivot others ih =>
        rw [List.foldlM_cons] at rest
        obtain ⟨next, inserted, later⟩ := bind_eq_ok_iff.mp rest
        exact ih (before ++ [pivot]) next (by simp [whole])
          (insert before pivot others done next whole start inserted) later
  unfold sortChecked at sorted
  split at sorted
  next first second rest =>
    obtain ⟨below, compared, behind⟩ := bind_eq_ok_iff.mp sorted
    obtain ⟨⟨run, others⟩, found, inserted⟩ := bind_eq_ok_iff.mp behind
    obtain ⟨rfl, chain⟩ := runFrom_eq_ok found
    have whole : (first :: second :: run).IsChain fun a b => less b a = .ok below :=
      List.isChain_cons_cons.mpr ⟨compared, chain⟩
    cases below with
    | true => exact fold others _ _ rfl (down _ others rfl whole) inserted
    | false => exact fold others _ _ rfl (up _ others rfl whole) inserted
  next shorter =>
    cases sorted
    apply short
    match xs with
    | [] => simp
    | [_] => simp
    | first :: second :: rest => exact absurd rfl (shorter first second rest)

theorem perm_of_sortChecked {xs ys : List α} (sorted : sortChecked less xs = .ok ys) :
    ys.Perm xs := by
  refine sortChecked_induction (motive := fun before done => done.Perm before) sorted
    (fun _ => .refl _) (fun run _ _ _ => run.reverse_perm) (fun _ _ _ _ => .refl _) ?_
  intro before pivot others done next _ kept inserted
  exact (perm_of_bisectInsert inserted).trans
    ((kept.cons pivot).trans (List.perm_append_singleton pivot before).symm)

/-- Any two neighbours in the sorted list have been compared. -/
theorem isChain_of_sortChecked {xs ys : List α} (sorted : sortChecked less xs = .ok ys) :
    ys.IsChain (InOrder less) := by
  refine sortChecked_induction (motive := fun _ done => done.IsChain (InOrder less)) sorted
    ?_ ?_ ?_ ?_
  · intro few
    match xs with
    | [] => exact .nil
    | [a] => exact List.isChain_singleton a
  · intro run others _ chain
    exact List.isChain_reverse.mpr (chain.imp fun a b compared => .inr compared)
  · intro run others _ chain
    exact chain.imp fun a b compared => .inl compared
  · intro before pivot others done next _ chain inserted
    exact isChain_of_bisectInsert inserted chain

/-- A sort fails with the fault of two elements that have no order. -/
theorem sortChecked_eq_error {xs : List α} {fault : Fault}
    (fails : sortChecked less xs = .error fault) :
    ∃ a ∈ xs, ∃ b ∈ xs, less a b = .error fault := by
  have fold (others done : List α) (kept : done ⊆ xs) (rest : others ⊆ xs)
      (refused : others.foldlM (fun sorted pivot => bisectInsert less pivot sorted) done =
        .error fault) : ∃ a ∈ xs, ∃ b ∈ xs, less a b = .error fault := by
    induction others generalizing done with
    | nil => cases refused
    | cons pivot others ih =>
        obtain ⟨among, later⟩ := List.cons_subset.mp rest
        rw [List.foldlM_cons] at refused
        rcases bind_eq_error_iff.mp refused with here | ⟨next, inserted, refused⟩
        · obtain ⟨x, member, unordered⟩ := bisectInsert_eq_error here
          exact ⟨pivot, among, x, kept member, unordered⟩
        · refine ih next ?_ later refused
          intro a member
          rcases List.mem_cons.mp ((perm_of_bisectInsert inserted).mem_iff.mp member) with rfl | old
          · exact among
          · exact kept old
  unfold sortChecked at fails
  split at fails
  next first second rest =>
    rcases bind_eq_error_iff.mp fails with refused | ⟨below, -, behind⟩
    · exact ⟨second, by simp, first, by simp, refused⟩
    · rcases bind_eq_error_iff.mp behind with refused | ⟨⟨run, others⟩, found, unplaced⟩
      · obtain ⟨a, member, b, other, unordered⟩ := runFrom_eq_error refused
        exact ⟨a, List.mem_cons_of_mem _ member, b, List.mem_cons_of_mem _ other, unordered⟩
      · obtain ⟨rfl, -⟩ := runFrom_eq_ok found
        refine fold others _ ?_ ?_ unplaced
        · intro a member
          have among : a ∈ first :: second :: run := by
            split at member
            · exact List.mem_reverse.mp member
            · exact member
          simpa using List.mem_append_left others among
        · exact fun a member => by simp [member]
  next => cases fails

/-- A relation `before` and, for elements of which neither is before the other, a relation
`tie` that goes with it. -/
structure Ranking (before tie : α → α → Prop) : Prop where
  trans {a b c : α} : before a b → before b c → before a c
  before_tie {a b c : α} : before a b → tie b c → before a c
  tie_before {a b c : α} : tie a b → before b c → before a c
  tie_trans {a b c : α} : tie a b → tie b c → tie a c

/-- The comparison of two elements comes to an end and decides the relation. -/
def Decides (less : α → α → Except Fault Bool) (before : α → α → Prop) (a b : α) : Prop :=
  (less a b = .ok true ∧ before a b) ∨ (less a b = .ok false ∧ ¬before a b)

section Ranked

variable {before tie : α → α → Prop}

theorem Decides.before_of_ok {a b : α} (decides : Decides less before a b)
    (compared : less a b = .ok true) : before a b := by
  rcases decides with ⟨-, holds⟩ | ⟨other, -⟩
  · exact holds
  · simp [compared] at other

theorem Decides.not_before_of_ok {a b : α} (decides : Decides less before a b)
    (compared : less a b = .ok false) : ¬before a b := by
  rcases decides with ⟨other, -⟩ | ⟨-, fails⟩
  · simp [compared] at other
  · exact fails

theorem Ranking.compose (ranking : Ranking before tie) {a b c : α}
    (first : before a b ∨ tie a b) (second : before b c ∨ tie b c) : before a c ∨ tie a c := by
  rcases first with first | first <;> rcases second with second | second
  · exact .inl (ranking.trans first second)
  · exact .inl (ranking.before_tie first second)
  · exact .inl (ranking.tie_before first second)
  · exact .inr (ranking.tie_trans first second)

theorem Ranking.before_compose (ranking : Ranking before tie) {a b c : α} (first : before a b)
    (second : before b c ∨ tie b c) : before a c :=
  second.elim (ranking.trans first) (ranking.before_tie first)

theorem pairwise_of_bisectInsert (ranking : Ranking before tie) {pivot : α} {xs ys : List α}
    (inserted : bisectInsert less pivot xs = .ok ys)
    (decides : ∀ x ∈ xs, Decides less before pivot x)
    (sorted : xs.Pairwise fun a b => before a b ∨ tie a b)
    (placed : ∀ x ∈ xs, before x pivot ∨ before pivot x ∨ tie x pivot) :
    ys.Pairwise fun a b => before a b ∨ tie a b := by
  obtain ⟨left, right, rfl, rfl, last, head⟩ := bisectInsert_eq_ok inserted
  obtain ⟨front, back, across⟩ := List.pairwise_append.mp sorted
  have behind : ∀ y ∈ right, before pivot y := by
    intro y member
    cases right with
    | nil => cases member
    | cons first others =>
        have least := (decides first (by simp)).before_of_ok (head first rfl)
        rcases List.mem_cons.mp member with rfl | later
        · exact least
        · exact ranking.before_compose least ((List.pairwise_cons.mp back).1 y later)
  have ahead : ∀ x ∈ left, before x pivot ∨ tie x pivot := by
    intro x member
    -- An element that the pivot is before would be before the last one too, which was asked.
    have notBefore : ¬before pivot x := by
      intro wrong
      cases left using List.reverseRecOn with
      | nil => cases member
      | append_singleton others most =>
          have kept := (decides most (by simp)).not_before_of_ok (last most (by simp))
          rcases List.mem_append.mp member with earlier | same
          · have order := (List.pairwise_append.mp front).2.2 x earlier most (by simp)
            exact kept (ranking.before_compose wrong order)
          · obtain rfl := List.mem_singleton.mp same
            exact kept wrong
    rcases placed x (List.mem_append_left right member) with first | wrong | tied
    · exact .inl first
    · exact absurd wrong notBefore
    · exact .inr tied
  refine List.pairwise_append.mpr ⟨front, List.pairwise_cons.mpr ⟨?_, back⟩, ?_⟩
  · exact fun y member => .inl (behind y member)
  · intro x member y other
    rcases List.mem_cons.mp other with rfl | later
    · exact ahead x member
    · exact across x member y later

theorem Ranking.pairwise_of_isChain (ranking : Ranking before tie) {xs : List α}
    (chain : xs.IsChain fun a b => before a b ∨ tie a b) :
    xs.Pairwise fun a b => before a b ∨ tie a b := by
  have transitive : Trans (fun a b => before a b ∨ tie a b) (fun a b => before a b ∨ tie a b)
      (fun a b => before a b ∨ tie a b) := ⟨ranking.compose⟩
  exact List.isChain_iff_pairwise.mp chain

theorem pairwise_of_falling (ranking : Ranking before tie) {run : List α}
    (decides : ∀ a ∈ run, ∀ b ∈ run, Decides less before a b)
    (chain : run.IsChain fun a b => less b a = .ok true) :
    run.reverse.Pairwise fun a b => before a b ∨ tie a b := by
  refine ranking.pairwise_of_isChain (List.isChain_reverse.mpr ?_)
  refine List.IsChain.imp_of_mem_imp (fun a b first second compared => ?_) chain
  exact .inl ((decides b second a first).before_of_ok compared)

theorem pairwise_of_rising (ranking : Ranking before tie) {run : List α}
    (decides : ∀ a ∈ run, ∀ b ∈ run, Decides less before a b)
    (placed : run.Pairwise fun a b => before a b ∨ before b a ∨ tie a b)
    (chain : run.IsChain fun a b => less b a = .ok false) :
    run.Pairwise fun a b => before a b ∨ tie a b := by
  apply ranking.pairwise_of_isChain
  rw [List.isChain_iff_getElem]
  intro i bound
  have kept := (decides run[i + 1] (by simp) run[i] (by simp)).not_before_of_ok
    (List.isChain_iff_getElem.mp chain i bound)
  rcases List.pairwise_iff_getElem.mp placed i (i + 1) _ bound (Nat.lt_succ_self i) with
    first | wrong | tied
  · exact .inl first
  · exact absurd wrong kept
  · exact .inr tied

/-- If any two elements have an order, the sort comes to an end.  Elements of which neither
is before the other keep their sequence. -/
theorem sortChecked_of_ranking (ranking : Ranking before tie) {xs : List α}
    (decides : ∀ a ∈ xs, ∀ b ∈ xs, Decides less before a b)
    (placed : xs.Pairwise fun a b => before a b ∨ before b a ∨ tie a b) :
    ∃ ys, sortChecked less xs = .ok ys ∧ ys.Perm xs ∧
      ys.Pairwise fun a b => before a b ∨ tie a b := by
  cases sorted : sortChecked less xs with
  | error fault =>
      obtain ⟨a, first, b, second, refused⟩ := sortChecked_eq_error sorted
      rcases decides a first b second with ⟨compared, -⟩ | ⟨compared, -⟩ <;>
        simp [refused] at compared
  | ok ys =>
      refine ⟨ys, rfl, perm_of_sortChecked sorted, ?_⟩
      have inRun {run others : List α} (whole : xs = run ++ others) :
          ∀ a ∈ run, ∀ b ∈ run, Decides less before a b := by
        subst whole
        exact fun a first b second =>
          decides a (List.mem_append_left _ first) b (List.mem_append_left _ second)
      refine (sortChecked_induction (motive := fun front done =>
        done.Perm front ∧ done.Pairwise fun a b => before a b ∨ tie a b) sorted ?_ ?_ ?_ ?_).2
      · intro few
        refine ⟨.refl _, ?_⟩
        match xs with
        | [] => exact .nil
        | [a] => exact List.pairwise_singleton _ a
      · intro run others whole chain
        exact ⟨run.reverse_perm, pairwise_of_falling ranking (inRun whole) chain⟩
      · intro run others whole chain
        refine ⟨.refl _, pairwise_of_rising ranking (inRun whole) ?_ chain⟩
        exact (List.pairwise_append.mp (whole ▸ placed)).1
      · rintro front pivot others done next rfl ⟨kept, order⟩ inserted
        refine ⟨(perm_of_bisectInsert inserted).trans
          ((kept.cons pivot).trans (List.perm_append_singleton pivot front).symm), ?_⟩
        have among {x : α} (member : x ∈ done) : x ∈ front := kept.mem_iff.mp member
        refine pairwise_of_bisectInsert ranking inserted ?_ order fun x member => ?_
        · exact fun x member => decides pivot (by simp) x (by simp [among member])
        · exact (List.pairwise_append.mp placed).2.2 x (among member) pivot (by simp)

end Ranked

end Sorting

end VersionRange
