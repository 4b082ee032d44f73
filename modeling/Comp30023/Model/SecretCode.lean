import Mathlib.Data.List.FinRange
import Mathlib.Logic.Function.Basic

/-!
# Secret codes

`secret-code.c`: drawing, checking and scoring codes of four colours. Characters are
bytes; reading past the end of a list of bytes gives the terminator.
-/

set_option autoImplicit false

namespace Comp30023.Model

/-- The bytes of a text, without a terminator. -/
def ascii (text : String) : List UInt8 := text.toList.map fun c => UInt8.ofNat c.toNat

/-- SOURCE: secret-code.h:10 -/
def secretCodeLen : ℕ := 4

/-- SOURCE: secret-code.h:11-16 -/
def secretCodeColors : List UInt8 := ascii "ABCDEF"

/-- SOURCE: secret-code.h:17 -/
def secretCodeColorsLen : ℕ := 6

/-- `rand i` is the `i`-th number `rand()` returns.
SOURCE: secret-code.c:18-37 -/
def getRandomSecretCode (rand : ℕ → ℕ) : List UInt8 :=
  (List.range secretCodeLen).map (fun i => secretCodeColors.getD (rand i % secretCodeColorsLen) 0)
    ++ [0]

/-- The loop of `is_valid_secret_code` from `i` on, with the number of characters to go: the
index at which it stops.
SOURCE: secret-code.c:44-60 -/
def colorsPrefix (secretCode : List UInt8) : ℕ → ℕ → ℕ
  | 0, i => i
  | n + 1, i =>
    if secretCode.getD i 0 ∈ secretCodeColors then colorsPrefix secretCode n (i + 1) else i

/-- SOURCE: secret-code.c:39-63 -/
def isValidSecretCode (secretCode : List UInt8) : Bool :=
  colorsPrefix secretCode secretCodeLen 0 == secretCodeLen
    && secretCode.getD secretCodeLen 0 == 0

/-! ## Scoring a guess

The source fixes the length of a code; here it is `n`, and the characters are of any type. -/

section Feedback

variable {α : Type} [DecidableEq α] {n : ℕ}

/-- What `get_secret_code_guess_feedback` stores through its pointers. -/
structure Feedback where
  correctPositionsCount : ℕ
  correctColorsCount : ℕ
deriving Repr, DecidableEq

/-- One turn of the loop over positions: `(*correct_positions_count, visited)`.
SOURCE: secret-code.c:77-84 -/
def positionTurn (actual guess : Fin n → α) (state : ℕ × (Fin n → Bool)) (i : Fin n) :
    ℕ × (Fin n → Bool) :=
  if guess i = actual i then (state.1 + 1, Function.update state.2 i true) else state

/-- One turn of the outer loop over colours: `(*correct_colors_count, visited_2)`. The inner
loop stops at the first position of the actual code that is free and has the colour.
SOURCE: secret-code.c:89-111 -/
def colorTurn (actual guess : Fin n → α) (visited : Fin n → Bool)
    (state : ℕ × (Fin n → Bool)) (i : Fin n) : ℕ × (Fin n → Bool) :=
  if visited i then state
  else
    match (List.finRange n).find? fun j =>
        !(visited j || state.2 j) && decide (guess i = actual j) with
    | some j => (state.1 + 1, Function.update state.2 j true)
    | none => state

/-- SOURCE: secret-code.c:65-111 -/
def getSecretCodeGuessFeedback (actual guess : Fin n → α) : Feedback :=
  let (correctPositionsCount, visited) :=
    (List.finRange n).foldl (positionTurn actual guess) (0, fun _ => false)
  let (correctColorsCount, _) :=
    (List.finRange n).foldl (colorTurn actual guess visited) (0, fun _ => false)
  { correctPositionsCount, correctColorsCount }

/-- What `get_secret_code_guess_feedback` returns.
SOURCE: secret-code.c:113 -/
def Feedback.isCorrect (n : ℕ) (feedback : Feedback) : Bool :=
  feedback.correctPositionsCount == n

end Feedback

/-- The first `SECRET_CODE_LEN` characters of a C array, as a code. -/
def codeOf (bytes : List UInt8) (i : Fin secretCodeLen) : UInt8 := bytes.getD i 0

end Comp30023.Model
