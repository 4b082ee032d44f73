import Mathlib.Data.List.Basic
import Mathlib.Algebra.BigOperators.Group.List.Basic
import Mathlib.Algebra.GroupWithZero.Nat

/-!
# A stream that arrives in chunks

A sequence cut into chunks, from the front of which a reader takes what it needs, piece by
piece. What is taken and what is left depend on the elements; over how many chunks it is
spread, and which sizes are left, only on the sizes of the chunks.
-/

set_option autoImplicit false

namespace Comp30023.Library

/-- Over how many chunks of these sizes the first `need` elements are spread. -/
def spread : ℕ → List ℕ → ℕ
  | _, [] => 0
  | need, n :: sizes => if n < need then spread (need - n) sizes + 1 else 1

/-- The sizes of the chunks that are left when the first `need` elements are gone. -/
def sizesAfter : ℕ → List ℕ → List ℕ
  | _, [] => []
  | need, n :: sizes =>
    if n < need then sizesAfter (need - n) sizes
    else if n ≤ need then sizes
    else (n - need) :: sizes

/-- Each of the first `k` blocks of `size` elements is spread over at most `limit` chunks. -/
def SpreadWithin (size limit : ℕ) : ℕ → List ℕ → Prop
  | 0, _ => True
  | k + 1, sizes => spread size sizes ≤ limit ∧ SpreadWithin size limit k (sizesAfter size sizes)

instance SpreadWithin.decidable (size limit : ℕ) :
    (k : ℕ) → (sizes : List ℕ) → Decidable (SpreadWithin size limit k sizes)
  | 0, _ => inferInstanceAs (Decidable True)
  | k + 1, sizes =>
    have := SpreadWithin.decidable size limit k (sizesAfter size sizes)
    inferInstanceAs (Decidable (_ ∧ _))

/-- A block that comes in one chunk is within any limit. -/
theorem spreadWithin_replicate {size limit : ℕ} (hlimit : 1 ≤ limit) (k : ℕ) :
    SpreadWithin size limit k (List.replicate k size) := by
  induction k with
  | zero => trivial
  | succ k ih =>
    simp only [List.replicate_succ, SpreadWithin, spread, sizesAfter, Nat.lt_irrefl, if_false,
      Nat.le_refl, if_true]
    exact ⟨hlimit, ih⟩

section Elements

variable {α : Type}

/-- The chunks that are left when the first `need` elements are gone. -/
def chunksAfter : ℕ → List (List α) → List (List α)
  | _, [] => []
  | need, c :: chunks =>
    if c.length < need then chunksAfter (need - c.length) chunks
    else if c.length ≤ need then chunks
    else c.drop need :: chunks

/-- INTERNAL: what is left has the sizes that are left. -/
theorem map_length_chunksAfter (need : ℕ) (chunks : List (List α)) :
    (chunksAfter need chunks).map List.length = sizesAfter need (chunks.map List.length) := by
  induction chunks generalizing need with
  | nil => rfl
  | cons c chunks ih =>
    simp only [chunksAfter, List.map_cons, sizesAfter]
    split_ifs
    · exact ih _
    · rfl
    · simp

/-- INTERNAL: what is left is the stream without its first `need` elements. -/
theorem flatten_chunksAfter (need : ℕ) (chunks : List (List α)) :
    (chunksAfter need chunks).flatten = chunks.flatten.drop need := by
  induction chunks generalizing need with
  | nil => simp [chunksAfter]
  | cons c chunks ih =>
    simp only [chunksAfter, List.flatten_cons]
    split_ifs with hshort hle
    · have hgone : c.drop need = [] := List.drop_of_length_le (by omega)
      rw [ih, List.drop_append, hgone, List.nil_append]
    · have hlen : c.length = need := by omega
      rw [← hlen, List.drop_left]
    · rw [List.flatten_cons, List.drop_append_of_le_length (by omega)]

/-- INTERNAL: no chunk that is left is empty. -/
theorem chunksAfter_ne_nil {need : ℕ} {chunks : List (List α)} (h : ∀ c ∈ chunks, c ≠ []) :
    ∀ c ∈ chunksAfter need chunks, c ≠ [] := by
  induction chunks generalizing need with
  | nil => simp [chunksAfter]
  | cons c chunks ih =>
    have htail : ∀ d ∈ chunks, d ≠ [] := by
      intro d hd
      exact h d (List.mem_cons_of_mem c hd)
    simp only [chunksAfter]
    split_ifs with hshort hle
    · exact ih htail
    · exact htail
    · rintro d hd
      rcases List.mem_cons.mp hd with rfl | hd
      · rw [Ne, List.drop_eq_nil_iff]
        exact hle
      · exact htail d hd

/-- INTERNAL: a chunk that is shorter than what is needed is used up. -/
theorem chunksAfter_of_lt {need : ℕ} {c : List α} (chunks : List (List α)) (h : c.length < need) :
    chunksAfter need (c :: chunks) = chunksAfter (need - c.length) chunks := by
  simp [chunksAfter, h]

/-- A stream of one repeated element, cut into chunks of given sizes. -/
def uniformChunks (a : α) (sizes : List ℕ) : List (List α) :=
  sizes.map fun n => List.replicate n a

/-- INTERNAL: the sizes are the given ones. -/
theorem map_length_uniformChunks (a : α) (sizes : List ℕ) :
    (uniformChunks a sizes).map List.length = sizes := by
  simp [uniformChunks, Function.comp_def]

/-- INTERNAL: the stream is as long as the sizes say. -/
theorem flatten_uniformChunks (a : α) (sizes : List ℕ) :
    (uniformChunks a sizes).flatten = List.replicate sizes.sum a := by
  induction sizes with
  | nil => rfl
  | cons n sizes ih =>
    simp only [uniformChunks, List.map_cons, List.flatten_cons, List.sum_cons] at ih ⊢
    rw [ih, List.replicate_append_replicate]

end Elements

end Comp30023.Library
