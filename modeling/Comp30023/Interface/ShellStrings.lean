import Comp30023.Model.MyShell
import Mathlib.Data.List.Basic

/-!
# Arrays of the shell

An array of which some elements are known is written as what stands before an index, the element
there and what stands behind it. The lemmas say what an access at such an index gives.
-/

set_option autoImplicit false

namespace Comp30023.Interface

open Comp30023.Library Comp30023.Model

section Access

variable {α : Type}

/-- INTERNAL: an element is read.
SOURCE: my-shell.c:205, 222, 239 -/
theorem loadAt_append (before : List α) (x : α) (after : List α) {i : ℕ} (hi : i = before.length) :
    loadAt (before ++ x :: after) i = .ok x := by
  simp [loadAt, hi]

/-- INTERNAL: an element is stored.
SOURCE: my-shell.c:239-241, 259, 264 -/
theorem storeAt_append (before : List α) (x y : α) (after : List α) {i : ℕ}
    (hi : i = before.length) :
    storeAt (before ++ x :: after) i y = .ok (before ++ y :: after) := by
  simp [storeAt, hi]

/-- INTERNAL: a store does not change the size of an array.
SOURCE: my-shell.c:259, 264 -/
theorem length_of_storeAt {a b : List α} {i : ℕ} {x : α} (h : storeAt a i x = .ok b) :
    b.length = a.length := by
  unfold storeAt at h
  split at h
  · cases h
    exact List.length_set
  · cases h

end Access

/-! ## Numbers of the type `int` -/

/-- INTERNAL: a number that is in the type. -/
theorem intResult_ok {n : ℕ} (h : n ≤ intMax) : intResult n = .ok n := if_pos h

/-- INTERNAL: a number that is not. -/
theorem intResult_error {n : ℕ} (h : intMax < n) : intResult n = .error .intOverflow :=
  if_neg (Nat.not_le.mpr h)

/-- INTERNAL: a result is the number itself. -/
theorem intResult_eq_ok {n m : ℕ} (h : intResult n = .ok m) : n ≤ intMax ∧ n = m := by
  unfold intResult at h
  split at h
  case isTrue hfits => exact ⟨hfits, Except.ok.inj h⟩
  case isFalse => cases h

/-- INTERNAL: the characters behind the first `len` of a string that is not too long are counted.
SOURCE: my-shell.c:110-116 -/
theorem strlenLoop_string {s : List UInt8} {len : ℕ} (rest : List UInt8) (h : 0 ∉ s)
    (hfits : len + s.length ≤ intMax) : strlenLoop len (s ++ 0 :: rest) = .ok (len + s.length) := by
  induction s generalizing len with
  | nil => rfl
  | cons c s ih =>
    rw [List.mem_cons, not_or] at h
    rw [List.length_cons] at hfits
    have hrest : strlenLoop (len + 1) (s ++ 0 :: rest) = .ok (len + 1 + s.length) :=
      ih h.2 (by omega)
    rw [List.cons_append, strlenLoop, if_neg (Ne.symm h.1), intResult_ok (by omega)]
    rw [show len + (c :: s).length = len + 1 + s.length by rw [List.length_cons]; omega]
    exact hrest

/-- INTERNAL: the number leaves its type in a string that is too long.
SOURCE: my-shell.c:110-116 -/
theorem strlenLoop_overflow {s : List UInt8} {len : ℕ} (rest : List UInt8) (h : 0 ∉ s)
    (hlen : len ≤ intMax) (hlong : intMax < len + s.length) :
    strlenLoop len (s ++ 0 :: rest) = .error .intOverflow := by
  induction s generalizing len with
  | nil => exact absurd hlong (by simpa using hlen)
  | cons c s ih =>
    rw [List.mem_cons, not_or] at h
    rw [List.length_cons] at hlong
    rw [List.cons_append, strlenLoop, if_neg (Ne.symm h.1)]
    by_cases hlast : len + 1 ≤ intMax
    · rw [intResult_ok hlast]
      exact ih h.2 hlast (by omega)
    · rw [intResult_error (by omega)]
      rfl

/-- INTERNAL: the length of a string that ends at its first null byte.
SOURCE: my-shell.c:108-119 -/
theorem strlen_string {s : List UInt8} (rest : List UInt8) (h : 0 ∉ s) (hfits : s.length ≤ intMax) :
    strlen (s ++ 0 :: rest) = .ok s.length := by
  have hloop : strlenLoop 0 (s ++ 0 :: rest) = .ok (0 + s.length) :=
    strlenLoop_string rest h (by omega)
  rwa [Nat.zero_add] at hloop

end Comp30023.Interface
