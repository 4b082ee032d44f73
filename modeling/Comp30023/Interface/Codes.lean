import Mathlib.Data.List.GetD
import Comp30023.Model.Server

/-!
# Codes and the positions that agree

What `is_valid_secret_code` accepts, and what the first number that
`get_secret_code_guess_feedback` stores says about a guess: it is the number of positions at
which the guess agrees with the secret, so it is the length of a code exactly for the secret
itself.
-/

set_option autoImplicit false

namespace Comp30023.Interface

open Comp30023.Library Comp30023.Model

/-! ## Valid codes -/

/-- INTERNAL: how far the loop of `is_valid_secret_code` comes.
SOURCE: secret-code.c:44-60 -/
theorem colorsPrefix_spec (code : List UInt8) (n i : ℕ) :
    colorsPrefix code n i ≤ i + n ∧
      (colorsPrefix code n i = i + n ↔ ∀ j < n, code.getD (i + j) 0 ∈ secretCodeColors) := by
  induction n generalizing i with
  | zero => simp [colorsPrefix]
  | succ n ih =>
    unfold colorsPrefix
    by_cases hcolor : code.getD i 0 ∈ secretCodeColors
    · obtain ⟨hle, hiff⟩ := ih (i + 1)
      rw [if_pos hcolor]
      have hshift : i + 1 + n = i + (n + 1) := by omega
      rw [hshift] at hle hiff
      refine ⟨hle, hiff.trans ⟨fun h j hj => ?_, fun h j hj => ?_⟩⟩
      · cases j with
        | zero => exact hcolor
        | succ j =>
          have := h j (by omega)
          rwa [show i + 1 + j = i + (j + 1) by omega] at this
      · have := h (j + 1) (by omega)
        rwa [show i + (j + 1) = i + 1 + j by omega] at this
    · rw [if_neg hcolor]
      refine ⟨by omega, iff_of_false (by omega) fun h => hcolor ?_⟩
      exact h 0 (by omega)

/-- What a valid code is: four colours, and then nothing or a terminator.
SOURCE: secret-code.c:39-63 -/
theorem isValidSecretCode_iff (code : List UInt8) :
    isValidSecretCode code = true ↔
      (∀ j < secretCodeLen, code.getD j 0 ∈ secretCodeColors) ∧ code.getD secretCodeLen 0 = 0 := by
  have hstop := (colorsPrefix_spec code secretCodeLen 0).2
  simp only [Nat.zero_add] at hstop
  simp only [isValidSecretCode, Bool.and_eq_true, beq_iff_eq, hstop]

/-- INTERNAL: a colour is a byte other than the terminator. -/
theorem ne_zero_of_color {c : UInt8} (h : c ∈ secretCodeColors) : c ≠ 0 := by
  rintro rfl
  revert h
  decide

/-- INTERNAL: a valid code, byte by byte. -/
theorem exists_of_isValid {code : List UInt8} (h : isValidSecretCode code = true) :
    ∃ a b c d rest, code = a :: b :: c :: d :: rest ∧ cString code = [a, b, c, d] ∧
      ∀ x ∈ [a, b, c, d], x ∈ secretCodeColors := by
  obtain ⟨hcolors, hend⟩ := (isValidSecretCode_iff code).mp h
  have h₀ := hcolors 0 (by decide)
  have h₁ := hcolors 1 (by decide)
  have h₂ := hcolors 2 (by decide)
  have h₃ := hcolors 3 (by decide)
  match code, h₀, h₁, h₂, h₃, hend with
  | [], h₀, _, _, _, _ => exact absurd rfl (ne_zero_of_color h₀)
  | [_], _, h₁, _, _, _ => exact absurd rfl (ne_zero_of_color h₁)
  | [_, _], _, _, h₂, _, _ => exact absurd rfl (ne_zero_of_color h₂)
  | [_, _, _], _, _, _, h₃, _ => exact absurd rfl (ne_zero_of_color h₃)
  | a :: b :: c :: d :: rest, h₀, h₁, h₂, h₃, hend =>
    refine ⟨a, b, c, d, rest, rfl, ?_, ?_⟩
    · have hrest : rest.takeWhile (fun x => decide (x ≠ 0)) = [] := by
        cases rest with
        | nil => rfl
        | cons e rest =>
          have he : e = 0 := hend
          simp [he]
      unfold cString
      rw [List.takeWhile_cons_of_pos (by simpa using ne_zero_of_color h₀),
        List.takeWhile_cons_of_pos (by simpa using ne_zero_of_color h₁),
        List.takeWhile_cons_of_pos (by simpa using ne_zero_of_color h₂),
        List.takeWhile_cons_of_pos (by simpa using ne_zero_of_color h₃), hrest]
    · simpa using ⟨h₀, h₁, h₂, h₃⟩

/-- Two valid codes are the same code exactly if they are the same text. -/
theorem codeOf_eq_iff {code code' : List UInt8} (h : isValidSecretCode code = true)
    (h' : isValidSecretCode code' = true) :
    codeOf code = codeOf code' ↔ cString code = cString code' := by
  obtain ⟨a, b, c, d, rest, rfl, htext, -⟩ := exists_of_isValid h
  obtain ⟨a', b', c', d', rest', rfl, htext', -⟩ := exists_of_isValid h'
  rw [htext, htext']
  constructor
  · intro heq
    have h₀ := congrFun heq ⟨0, by decide⟩
    have h₁ := congrFun heq ⟨1, by decide⟩
    have h₂ := congrFun heq ⟨2, by decide⟩
    have h₃ := congrFun heq ⟨3, by decide⟩
    simp only [codeOf, List.getD_cons_zero, List.getD_cons_succ] at h₀ h₁ h₂ h₃
    rw [h₀, h₁, h₂, h₃]
  · intro heq
    obtain ⟨rfl, rfl, rfl, rfl⟩ : a = a' ∧ b = b' ∧ c = c' ∧ d = d' := by simpa using heq
    funext i
    match i with
    | ⟨0, _⟩ => rfl
    | ⟨1, _⟩ => rfl
    | ⟨2, _⟩ => rfl
    | ⟨3, _⟩ => rfl

/-- A random code is valid, whatever `rand()` returns.
SOURCE: secret-code.c:18-37 -/
theorem isValid_getRandomSecretCode (rand : ℕ → ℕ) :
    isValidSecretCode (getRandomSecretCode rand) = true := by
  have hcolor : ∀ k : ℕ, secretCodeColors.getD (k % secretCodeColorsLen) 0 ∈ secretCodeColors := by
    intro k
    have hlt : k % secretCodeColorsLen < secretCodeColors.length := Nat.mod_lt k (by decide)
    rw [List.getD_eq_getElem _ _ hlt]
    exact List.getElem_mem hlt
  rw [isValidSecretCode_iff]
  refine ⟨fun j hj => ?_, rfl⟩
  match j, hj with
  | 0, _ => exact hcolor (rand 0)
  | 1, _ => exact hcolor (rand 1)
  | 2, _ => exact hcolor (rand 2)
  | 3, _ => exact hcolor (rand 3)

/-! ## Positions that agree -/

section Positions

variable {α : Type} [DecidableEq α] {n : ℕ}

/-- INTERNAL: the loop over positions counts those that agree.
SOURCE: secret-code.c:77-84 -/
theorem foldl_positionTurn (actual guess : Fin n → α) (l : List (Fin n))
    (state : ℕ × (Fin n → Bool)) :
    (l.foldl (positionTurn actual guess) state).1 =
      state.1 + l.countP fun i => guess i = actual i := by
  induction l generalizing state with
  | nil => rfl
  | cons i l ih =>
    rw [List.foldl_cons, ih, List.countP_cons]
    unfold positionTurn
    by_cases h : guess i = actual i
    · simp only [h, if_true, decide_true]
      omega
    · simp [h]

/-- The number of correct positions.
SOURCE: secret-code.c:65-84 -/
theorem correctPositionsCount_eq (actual guess : Fin n → α) :
    (getSecretCodeGuessFeedback actual guess).correctPositionsCount =
      (List.finRange n).countP fun i => guess i = actual i := by
  have hloop := foldl_positionTurn actual guess (List.finRange n) (0, fun _ => false)
  rw [Nat.zero_add] at hloop
  exact hloop

theorem correctPositionsCount_le (actual guess : Fin n → α) :
    (getSecretCodeGuessFeedback actual guess).correctPositionsCount ≤ n := by
  rw [correctPositionsCount_eq]
  exact List.countP_le_length.trans List.length_finRange.le

/-- All positions are correct exactly if the guess is the actual code.
SOURCE: secret-code.c:113 -/
theorem correctPositionsCount_eq_length (actual guess : Fin n → α) :
    (getSecretCodeGuessFeedback actual guess).correctPositionsCount = n ↔ guess = actual := by
  have hall := List.countP_eq_length (p := fun i => decide (guess i = actual i))
    (l := List.finRange n)
  rw [List.length_finRange] at hall
  rw [correctPositionsCount_eq, hall, funext_iff]
  simp

end Positions

end Comp30023.Interface
