import Mathlib.Algebra.BigOperators.Finprod
import Mathlib.Data.Multiset.UnionInter
import Comp30023.Interface.Codes

/-!
# The feedback on a guess is the multiset rule

The second loop of `get_secret_code_guess_feedback` pairs each open position of the guess with
the first free position of the actual code that has its colour. It is greedy, and yet no order
of the positions would pair more: what is left to pair is the intersection of two multisets of
colours, those of the guess still to come and those of the actual code still free, and a turn
takes one colour off both of them or finds that there is none (`foldl_colorTurn_card`).

Around this the positions that agree are put back on both sides (`card_inter_colors`), so that
the two counts together are the size of the intersection of the two codes as multisets.
-/

set_option autoImplicit false

namespace Comp30023.Analysis

open Comp30023.Interface Comp30023.Model

variable {α : Type} [DecidableEq α] {n : ℕ}

/-- The positions at which the guess agrees with the actual code. -/
def agreeing (actual guess : Fin n → α) : Finset (Fin n) :=
  Finset.univ.filter fun i => guess i = actual i

/-- How often a character occurs in a code. -/
def occurrences (code : Fin n → α) (c : α) : ℕ :=
  (Finset.univ.filter fun i => code i = c).card

/-- The colours of a code at some of its positions. -/
def colors (code : Fin n → α) (s : Finset (Fin n)) : Multiset α := s.val.map code

/-- The positions of the actual code that a turn of the loop over colours may take. -/
def freePositions (visited visited₂ : Fin n → Bool) : Finset (Fin n) :=
  Finset.univ.filter fun j => visited j = false ∧ visited₂ j = false

/-- The positions of the guess that the loop over colours does not skip. -/
def openPositions (visited : Fin n → Bool) (l : List (Fin n)) : List (Fin n) :=
  l.filter fun i => !visited i

/-! ## The loop over positions -/

/-- INTERNAL: the loop over positions marks those that agree, and unmarks none.
SOURCE: secret-code.c:77-84 -/
theorem foldl_positionTurn_visited (actual guess : Fin n → α) (l : List (Fin n))
    (state : ℕ × (Fin n → Bool)) (j : Fin n) :
    (l.foldl (positionTurn actual guess) state).2 j = true ↔
      state.2 j = true ∨ j ∈ l ∧ guess j = actual j := by
  induction l generalizing state with
  | nil => simp
  | cons i l ih =>
    rw [List.foldl_cons, ih, List.mem_cons]
    unfold positionTurn
    by_cases hagree : guess i = actual i
    · rw [if_pos hagree]
      by_cases hij : j = i
      · subst hij
        simp [hagree]
      · simp [hij]
    · rw [if_neg hagree]
      have hij : j = i → ¬ guess j = actual j := by
        rintro rfl
        exact hagree
      tauto

/-- The marks with which the loop over colours starts.
SOURCE: secret-code.c:77-84 -/
theorem visited_iff (actual guess : Fin n → α) (j : Fin n) :
    ((List.finRange n).foldl (positionTurn actual guess) (0, fun _ => false)).2 j = true ↔
      guess j = actual j := by
  rw [foldl_positionTurn_visited]
  simp

/-! ## The loop over colours -/

/-- INTERNAL: a position of the actual code that is taken takes its colour out of the free ones. -/
theorem colors_freePositions_update (actual : Fin n → α) {visited visited₂ : Fin n → Bool}
    {j : Fin n} (hfree : visited j = false ∧ visited₂ j = false) :
    colors actual (freePositions visited (Function.update visited₂ j true)) =
      (colors actual (freePositions visited visited₂)).erase (actual j) := by
  have herase : freePositions visited (Function.update visited₂ j true) =
      (freePositions visited visited₂).erase j := by
    ext k
    by_cases hkj : k = j
    · subst hkj
      simp [freePositions]
    · simp [freePositions, hkj]
  have hmem : j ∈ (freePositions visited visited₂).val := by
    simpa [freePositions] using hfree
  unfold colors
  rw [herase, Finset.erase_val, Multiset.map_erase_of_mem _ _ hmem]

/-- One turn of the loop over colours: a colour of the guess is counted exactly if it is among
the free colours of the actual code, and is then taken off these.
SOURCE: secret-code.c:89-111 -/
theorem colorTurn_cases (actual guess : Fin n → α) (visited : Fin n → Bool)
    (state : ℕ × (Fin n → Bool)) {i : Fin n} (hopen : visited i = false) :
    (guess i ∈ colors actual (freePositions visited state.2) ∧
      (colorTurn actual guess visited state i).1 = state.1 + 1 ∧
      colors actual (freePositions visited (colorTurn actual guess visited state i).2) =
        (colors actual (freePositions visited state.2)).erase (guess i)) ∨
    (guess i ∉ colors actual (freePositions visited state.2) ∧
      colorTurn actual guess visited state i = state) := by
  unfold colorTurn
  rw [if_neg (by simp [hopen])]
  split
  case h_1 j hfound =>
    left
    have hj := List.find?_some hfound
    simp only [Bool.and_eq_true, Bool.not_eq_true', Bool.or_eq_false_iff, decide_eq_true_eq] at hj
    obtain ⟨hfree, hcolor⟩ := hj
    refine ⟨?_, rfl, ?_⟩
    · rw [hcolor]
      apply Multiset.mem_map_of_mem
      simpa [freePositions] using hfree
    · rw [hcolor]
      exact colors_freePositions_update actual hfree
  case h_2 hnone =>
    right
    refine ⟨?_, rfl⟩
    intro hmem
    obtain ⟨j, hj, hcolor⟩ := Multiset.mem_map.mp hmem
    have hfree : visited j = false ∧ state.2 j = false := by
      simpa [freePositions] using hj
    have hpass := List.find?_eq_none.mp hnone j (List.mem_finRange j)
    simp [hfree.1, hfree.2, hcolor] at hpass

/-- The loop over colours counts the intersection of the colours to come with the free ones.
SOURCE: secret-code.c:89-111 -/
theorem foldl_colorTurn_card (actual guess : Fin n → α) (visited : Fin n → Bool)
    (l : List (Fin n)) (state : ℕ × (Fin n → Bool)) :
    (l.foldl (colorTurn actual guess visited) state).1 =
      state.1 + (((openPositions visited l).map guess : Multiset α) ∩
        colors actual (freePositions visited state.2)).card := by
  induction l generalizing state with
  | nil => simp [openPositions]
  | cons i l ih =>
    rw [List.foldl_cons, ih]
    cases hvisited : visited i with
    | true =>
      -- the source goes on with the next position
      have hskip : colorTurn actual guess visited state i = state := if_pos hvisited
      have hopen : openPositions visited (i :: l) = openPositions visited l := by
        simp [openPositions, hvisited]
      rw [hskip, hopen]
    | false =>
      have hopen : ((openPositions visited (i :: l)).map guess : Multiset α) =
          guess i ::ₘ ((openPositions visited l).map guess : Multiset α) := by
        simp [openPositions, hvisited]
      rw [hopen]
      obtain ⟨hmem, hcount, hfree⟩ | ⟨hnot, hstay⟩ :=
        colorTurn_cases actual guess visited state hvisited
      · rw [hcount, hfree, Multiset.cons_inter_of_pos _ hmem, Multiset.card_cons]
        omega
      · rw [hstay, Multiset.cons_inter_of_neg _ hnot]

/-! ## Both counts -/

omit [DecidableEq α] in
/-- INTERNAL: a code at some of its positions, and at the others. -/
theorem colors_compl (code : Fin n → α) (s : Finset (Fin n)) :
    colors code s + colors code sᶜ = colors code Finset.univ := by
  have hsplit : s.val + sᶜ.val = (Finset.univ : Finset (Fin n)).val := by
    rw [← Finset.union_compl s, ← Finset.disjUnion_eq_union _ _ disjoint_compl_right]
    rfl
  unfold colors
  rw [← Multiset.map_add, hsplit]

/-- INTERNAL: where the guess agrees, it has the colours of the actual code. -/
theorem colors_agreeing (actual guess : Fin n → α) :
    colors guess (agreeing actual guess) = colors actual (agreeing actual guess) := by
  apply Multiset.map_congr rfl
  intro i hi
  simpa [agreeing] using hi

/-- The count of correct positions, as a set of positions.
SOURCE: secret-code.c:77-84 -/
theorem correctPositionsCount_eq_card (actual guess : Fin n → α) :
    (getSecretCodeGuessFeedback actual guess).correctPositionsCount =
      (agreeing actual guess).card := by
  rw [correctPositionsCount_eq, List.countP_eq_length_filter]
  rfl

/-- The count of correct colours: the colours that the two codes share away from the positions
at which they agree.
SOURCE: secret-code.c:89-111 -/
theorem correctColorsCount_eq_card (actual guess : Fin n → α) :
    (getSecretCodeGuessFeedback actual guess).correctColorsCount =
      (colors guess (agreeing actual guess)ᶜ ∩ colors actual (agreeing actual guess)ᶜ).card := by
  have hvisited := visited_iff actual guess
  have hcolors := foldl_colorTurn_card actual guess
    ((List.finRange n).foldl (positionTurn actual guess) (0, fun _ => false)).2 (List.finRange n)
    (0, fun _ => false)
  revert hcolors hvisited
  unfold getSecretCodeGuessFeedback
  generalize ((List.finRange n).foldl (positionTurn actual guess) (0, fun _ => false)) = first
  intro hvisited hcolors
  have hmark : ∀ j, first.2 j = false ↔ ¬ guess j = actual j := by
    intro j
    rw [← hvisited j, Bool.not_eq_true]
  have hfree : freePositions first.2 (fun _ => false) = (agreeing actual guess)ᶜ := by
    ext j
    simp [freePositions, agreeing, hmark]
  have hopen : ((openPositions first.2 (List.finRange n)).map guess : Multiset α) =
      colors guess (agreeing actual guess)ᶜ := by
    have hval : (freePositions first.2 fun _ => false).val =
        (openPositions first.2 (List.finRange n) : Multiset (Fin n)) := by
      apply congrArg Multiset.ofList
      apply List.filter_congr
      intro j _
      simp
    unfold colors
    rw [← hfree, hval, Multiset.map_coe]
  rw [hopen, hfree, Nat.zero_add] at hcolors
  exact hcolors

/-- Both counts together: the colours that the two codes share.
SOURCE: secret-code.c:65-111 -/
theorem counts_add_eq_card (actual guess : Fin n → α) :
    (getSecretCodeGuessFeedback actual guess).correctPositionsCount +
        (getSecretCodeGuessFeedback actual guess).correctColorsCount =
      (colors actual Finset.univ ∩ colors guess Finset.univ).card := by
  have hcard : (agreeing actual guess).card = (colors actual (agreeing actual guess)).card := by
    rw [colors, Multiset.card_map]
    rfl
  rw [correctPositionsCount_eq_card, correctColorsCount_eq_card, hcard, ← Multiset.card_add,
    Multiset.add_inter_distrib, ← colors_compl actual (agreeing actual guess),
    ← colors_compl guess (agreeing actual guess), colors_agreeing, Multiset.inter_comm]

/-- The two counts together are at most the length of a code.
SOURCE: secret-code.c:65-111 -/
theorem counts_add_le (actual guess : Fin n → α) :
    (getSecretCodeGuessFeedback actual guess).correctPositionsCount +
      (getSecretCodeGuessFeedback actual guess).correctColorsCount ≤ n := by
  have hcard : (colors actual Finset.univ ∩ colors guess Finset.univ).card ≤
      (colors actual Finset.univ).card := Multiset.card_le_card Multiset.inter_le_left
  have hlength : (colors actual Finset.univ).card = n := by
    rw [colors, Multiset.card_map]
    exact Finset.card_fin n
  rw [counts_add_eq_card]
  omega

/-- INTERNAL: a code as a multiset counts the occurrences of its characters. -/
theorem count_colors (code : Fin n → α) (c : α) :
    (colors code Finset.univ).count c = occurrences code c := by
  unfold colors occurrences
  rw [Multiset.count_map, Finset.card_def, Finset.filter_val]
  congr 1
  apply Multiset.filter_congr
  intro i _
  exact eq_comm

/-- INTERNAL: what two codes share, character by character. -/
theorem card_inter_colors (actual guess : Fin n → α) :
    (colors actual Finset.univ ∩ colors guess Finset.univ).card =
      ∑ᶠ c, min (occurrences actual c) (occurrences guess c) := by
  have hsum : ∀ s : Multiset α, s.card = ∑ᶠ c, s.count c := by
    intro s
    have hsupport : Function.support (fun c => s.count c) ⊆ ↑s.toFinset := by
      intro c hc
      simpa using hc
    rw [finsum_eq_sum_of_support_subset _ hsupport, Multiset.toFinset_sum_count_eq]
  rw [hsum]
  apply finsum_congr
  intro c
  rw [Multiset.count_inter, count_colors, count_colors]

/-- INTERNAL: exchanging the two codes. -/
theorem feedback_comm (actual guess : Fin n → α) :
    getSecretCodeGuessFeedback guess actual = getSecretCodeGuessFeedback actual guess := by
  have hagree : agreeing guess actual = agreeing actual guess := by
    apply Finset.filter_congr
    intro i _
    exact eq_comm
  have hpositions := correctPositionsCount_eq_card guess actual
  have hcolors := correctColorsCount_eq_card guess actual
  rw [hagree, ← correctPositionsCount_eq_card] at hpositions
  rw [hagree, Multiset.inter_comm, ← correctColorsCount_eq_card] at hcolors
  exact congrArg₂ Feedback.mk hpositions hcolors

/-- INTERNAL: a code that agrees at all positions but one has no colour in common there. -/
theorem correctColorsCount_eq_zero {actual guess : Fin n → α}
    (hone : (getSecretCodeGuessFeedback actual guess).correctPositionsCount + 1 = n) :
    (getSecretCodeGuessFeedback actual guess).correctColorsCount = 0 := by
  have hcompl : (agreeing actual guess)ᶜ.card = 1 := by
    rw [Finset.card_compl, Fintype.card_fin, ← correctPositionsCount_eq_card]
    omega
  obtain ⟨i, hi⟩ := Finset.card_eq_one.mp hcompl
  have hdiffer : ¬ guess i = actual i := by
    have hmem : i ∈ (agreeing actual guess)ᶜ := by
      rw [hi]
      exact Finset.mem_singleton_self i
    simpa [agreeing] using hmem
  have hguess : colors guess {i} = {guess i} := rfl
  have hactual : colors actual {i} = {actual i} := rfl
  rw [correctColorsCount_eq_card, hi, hguess, hactual, ← Multiset.cons_zero,
    Multiset.cons_inter_of_neg _ (by simpa using hdiffer), Multiset.zero_inter,
    Multiset.card_zero]

/-- **The feedback on a guess is the multiset rule.** For codes of every length over every
alphabet, the first count is the number of positions at which guess and code agree; the second
is what remains of the sum, over every character, of the smaller number of its occurrences; and
the guess is reported correct exactly if it is the code. So the counts do not depend on which
of the two strings is the guess, they add up to at most the length, and one misplaced colour
with every other position correct is never reported.
SOURCE: secret-code.c:65-114, secret-code.h:10-33 -/
theorem feedback_multiset_rule (actual guess : Fin n → α) :
    (getSecretCodeGuessFeedback actual guess).correctPositionsCount =
        (Finset.univ.filter fun i => guess i = actual i).card ∧
      (getSecretCodeGuessFeedback actual guess).correctPositionsCount ≤
        ∑ᶠ c, min (occurrences actual c) (occurrences guess c) ∧
      (getSecretCodeGuessFeedback actual guess).correctColorsCount =
        (∑ᶠ c, min (occurrences actual c) (occurrences guess c)) -
          (getSecretCodeGuessFeedback actual guess).correctPositionsCount ∧
      ((getSecretCodeGuessFeedback actual guess).isCorrect n = true ↔ guess = actual) ∧
      getSecretCodeGuessFeedback guess actual = getSecretCodeGuessFeedback actual guess ∧
      (getSecretCodeGuessFeedback actual guess).correctPositionsCount +
        (getSecretCodeGuessFeedback actual guess).correctColorsCount ≤ n ∧
      ¬ ((getSecretCodeGuessFeedback actual guess).correctPositionsCount + 1 = n ∧
        (getSecretCodeGuessFeedback actual guess).correctColorsCount = 1) := by
  have hadd := counts_add_eq_card actual guess
  refine ⟨correctPositionsCount_eq_card actual guess, ?_, ?_, ?_, feedback_comm actual guess,
    counts_add_le actual guess, ?_⟩
  · rw [← card_inter_colors, ← hadd]
    exact Nat.le_add_right _ _
  · rw [← card_inter_colors, ← hadd]
    exact (Nat.add_sub_cancel_left _ _).symm
  · rw [Feedback.isCorrect, beq_iff_eq]
    exact correctPositionsCount_eq_length actual guess
  · rintro ⟨hpositions, hcolors⟩
    have hzero := correctColorsCount_eq_zero hpositions
    omega

end Comp30023.Analysis
