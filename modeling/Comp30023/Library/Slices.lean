import Mathlib.Data.List.Basic
import Mathlib.Data.Int.Order.Basic
import Mathlib.Order.Basic

/-!
# Jobs cut into slices

A job is worked on in slices: the `i`-th of them lasts at most `quantum i` time steps, and all
but the last are used up. `sliceTimes` lists the time steps of a job of which so much is done,
given when its slices have begun. A new slice adds nothing to them, a time step of the last slice
adds itself.
-/

set_option autoImplicit false

namespace Comp30023.Library

/-- How much is done before the `i`-th slice, when those before it were used up. -/
def slicedBefore (quantum : ℕ → ℕ) : ℕ → ℕ
  | 0 => 0
  | i + 1 => slicedBefore quantum i + quantum i

/-- How long the `i`-th slice lasts when `size` is done in all. -/
def sliceLength (quantum : ℕ → ℕ) (size i : ℕ) : ℕ :=
  min (quantum i) (size - slicedBefore quantum i)

/-- The time steps of a job of which `size` is done in slices that have begun at `starts`. -/
def sliceTimes (quantum : ℕ → ℕ) (size : ℕ) (starts : List ℤ) : List ℤ :=
  (starts.mapIdx fun i t =>
    (List.range (sliceLength quantum size i)).map fun k : ℕ => t + (k : ℤ)).flatten

variable {quantum : ℕ → ℕ}

theorem slicedBefore_mono {i j : ℕ} (h : i ≤ j) :
    slicedBefore quantum i ≤ slicedBefore quantum j := by
  induction j with
  | zero =>
    obtain rfl : i = 0 := Nat.le_zero.mp h
    exact Nat.le_refl _
  | succ j ih =>
    rcases Nat.le_succ_iff.mp h with hle | rfl
    · exact Nat.le_trans (ih hle) (Nat.le_add_right _ _)
    · exact Nat.le_refl _

/-- One more slice. -/
theorem sliceTimes_concat (size : ℕ) (starts : List ℤ) (t : ℤ) :
    sliceTimes quantum size (starts ++ [t]) = sliceTimes quantum size starts ++
      (List.range (sliceLength quantum size starts.length)).map fun k : ℕ => t + (k : ℤ) := by
  simp [sliceTimes, List.mapIdx_append]

/-- Slices that were used up do not depend on how much is done after them. -/
theorem sliceTimes_of_le {size size' : ℕ} {starts : List ℤ}
    (h : slicedBefore quantum starts.length ≤ size)
    (h' : slicedBefore quantum starts.length ≤ size') :
    sliceTimes quantum size starts = sliceTimes quantum size' starts := by
  have hfull : ∀ n, slicedBefore quantum starts.length ≤ n → ∀ i < starts.length,
      sliceLength quantum n i = quantum i := by
    intro n hn i hi
    have hstep : slicedBefore quantum (i + 1) = slicedBefore quantum i + quantum i := rfl
    have hmono : slicedBefore quantum (i + 1) ≤ slicedBefore quantum starts.length :=
      slicedBefore_mono hi
    unfold sliceLength
    omega
  unfold sliceTimes
  congr 1
  apply List.ext_getElem
  · simp
  · intro i hi _
    have hlt : i < starts.length := by simpa using hi
    simp [hfull size h i hlt, hfull size' h' i hlt]

/-- A slice that has just begun adds nothing. -/
theorem sliceTimes_begin (starts : List ℤ) (t : ℤ) :
    sliceTimes quantum (slicedBefore quantum starts.length) (starts ++ [t]) =
      sliceTimes quantum (slicedBefore quantum starts.length) starts := by
  rw [sliceTimes_concat]
  simp [sliceLength]

/-- A time step of the last slice adds itself. -/
theorem sliceTimes_succ {starts : List ℤ} {t : ℤ} {k : ℕ} (h : k < quantum starts.length) :
    sliceTimes quantum (slicedBefore quantum starts.length + (k + 1)) (starts ++ [t]) =
      sliceTimes quantum (slicedBefore quantum starts.length + k) (starts ++ [t]) ++
        [t + (k : ℤ)] := by
  have hlong : sliceLength quantum (slicedBefore quantum starts.length + (k + 1)) starts.length =
      k + 1 := by
    unfold sliceLength
    omega
  have hshort : sliceLength quantum (slicedBefore quantum starts.length + k) starts.length = k := by
    unfold sliceLength
    omega
  rw [sliceTimes_concat, sliceTimes_concat, hlong, hshort, List.range_succ, List.map_append,
    List.append_assoc, sliceTimes_of_le (Nat.le_add_right _ _) (Nat.le_add_right _ k)]
  rfl

end Comp30023.Library
