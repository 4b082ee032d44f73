import Mathlib.Data.List.Nodup
import Mathlib.Data.List.Basic
import Mathlib.Data.List.Perm.Subperm
import Mathlib.Tactic.Common

/-!
# Chains of links

A linked structure is a function `next : α → Option α` on nodes. `Linked next h xs`
says that following `next` from the head `h` visits exactly `xs`, in order, and
ends at a null link. The list is determined by the head, has no repetition (a
chain that ends cannot meet itself), and only depends on the links of its own
nodes, which is the frame rule every update below uses.
-/

set_option autoImplicit false

namespace Comp30023.Library

variable {α : Type}

/-- Following `next` from `h` visits exactly the nodes of the list and then ends. -/
def Linked (next : α → Option α) : Option α → List α → Prop
  | h, [] => h = none
  | h, x :: xs => h = some x ∧ Linked next (next x) xs

@[simp] theorem linked_nil {next : α → Option α} {h : Option α} :
    Linked next h [] ↔ h = none := Iff.rfl

@[simp] theorem linked_cons {next : α → Option α} {h : Option α} {x : α} {xs : List α} :
    Linked next h (x :: xs) ↔ h = some x ∧ Linked next (next x) xs := Iff.rfl

/-- INTERNAL: a null head is the empty chain. -/
theorem linked_none {next : α → Option α} {xs : List α} : Linked next none xs ↔ xs = [] := by
  cases xs <;> simp

/-- INTERNAL: the head of a chain. -/
theorem Linked.head? {next : α → Option α} {h : Option α} {xs : List α}
    (hl : Linked next h xs) : h = xs.head? := by
  cases xs with
  | nil => exact hl
  | cons x xs => exact hl.1

/-- The frame rule: a chain only depends on the links of its own nodes. -/
theorem Linked.congr {next next' : α → Option α} {h : Option α} {xs : List α}
    (hl : Linked next h xs) (heq : ∀ x ∈ xs, next' x = next x) : Linked next' h xs := by
  induction xs generalizing h with
  | nil => exact hl
  | cons x xs ih =>
    refine ⟨hl.1, ?_⟩
    rw [heq x (by simp)]
    exact ih hl.2 fun y hy => heq y (by simp [hy])

/-- INTERNAL: the head determines the chain. -/
theorem Linked.unique {next : α → Option α} {h : Option α} {xs ys : List α}
    (hx : Linked next h xs) (hy : Linked next h ys) : xs = ys := by
  induction xs generalizing h ys with
  | nil =>
    rw [linked_nil] at hx
    subst hx
    exact (linked_none.mp hy).symm
  | cons x xs ih =>
    cases ys with
    | nil =>
      rw [linked_nil] at hy
      simp [hy] at hx
    | cons y ys =>
      have hxy : x = y := by simpa using hx.1.symm.trans hy.1
      subst hxy
      rw [ih hx.2 hy.2]

/-- INTERNAL: the chain from a node of a chain is the rest of that chain. -/
theorem Linked.suffix {next : α → Option α} {h : Option α} {xs ys : List α} {y : α}
    (hl : Linked next h (xs ++ y :: ys)) : Linked next (some y) (y :: ys) := by
  induction xs generalizing h with
  | nil => exact ⟨rfl, hl.2⟩
  | cons x xs ih => exact ih hl.2

/-- A chain that ends never visits a node twice. -/
theorem Linked.nodup {next : α → Option α} {h : Option α} {xs : List α}
    (hl : Linked next h xs) : xs.Nodup := by
  induction xs generalizing h with
  | nil => exact List.nodup_nil
  | cons x xs ih =>
    refine List.nodup_cons.mpr ⟨fun hmem => ?_, ih hl.2⟩
    -- a second visit to `x` would make a proper suffix of the chain equal to the chain
    obtain ⟨ys, zs, rfl⟩ := List.append_of_mem hmem
    have hwhole : Linked next (some x) (x :: (ys ++ x :: zs)) := ⟨rfl, hl.2⟩
    have htail : Linked next (some x) (x :: zs) := hl.2.suffix
    have hlen := congrArg List.length (hwhole.unique htail)
    simp only [List.length_cons, List.length_append] at hlen
    omega

/-- A chain of numbers below `n` has no more than `n` nodes. -/
theorem Linked.length_le {next : ℕ → Option ℕ} {h : Option ℕ} {xs : List ℕ} {n : ℕ}
    (hl : Linked next h xs) (hlt : ∀ x ∈ xs, x < n) : xs.length ≤ n := by
  have hsub : xs.length ≤ (List.range n).length := by
    apply (List.Nodup.subperm hl.nodup ?_).length_le
    intro x hx
    exact List.mem_range.mpr (hlt x hx)
  rwa [List.length_range] at hsub

/-- Hanging a node into a chain: the node before it now points to it, it points to what that
node pointed to, and the other nodes are as before. -/
theorem Linked.insert {next next' : α → Option α} {h : Option α} {xs ys : List α} {p y : α}
    (hl : Linked next h (xs ++ p :: ys)) (hframe : ∀ x ∈ xs ++ ys, next' x = next x)
    (hp : next' p = some y) (hy : next' y = next p) : Linked next' h (xs ++ p :: y :: ys) := by
  induction xs generalizing h with
  | nil =>
    refine ⟨hl.1, ?_⟩
    rw [hp]
    refine ⟨rfl, ?_⟩
    rw [hy]
    exact hl.2.congr fun x hx => hframe x (by simpa using hx)
  | cons x xs ih =>
    refine ⟨hl.1, ?_⟩
    rw [hframe x (by simp)]
    exact ih hl.2 fun z hz => hframe z (by rw [List.cons_append]; exact List.mem_cons_of_mem _ hz)

/-- Taking a node out of a chain: the node before it now points to what it pointed to, and the
other nodes are as before. -/
theorem Linked.delete {next next' : α → Option α} {h : Option α} {xs ys : List α} {p y : α}
    (hl : Linked next h (xs ++ p :: y :: ys)) (hframe : ∀ x ∈ xs ++ ys, next' x = next x)
    (hp : next' p = next y) : Linked next' h (xs ++ p :: ys) := by
  induction xs generalizing h with
  | nil =>
    refine ⟨hl.1, ?_⟩
    rw [hp]
    exact hl.2.2.congr fun x hx => hframe x (by simpa using hx)
  | cons x xs ih =>
    refine ⟨hl.1, ?_⟩
    rw [hframe x (by simp)]
    exact ih hl.2 fun z hz => hframe z (by rw [List.cons_append]; exact List.mem_cons_of_mem _ hz)

end Comp30023.Library
