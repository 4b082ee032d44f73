import Mathlib.Data.List.Basic
import Mathlib.Data.List.Flatten
import Mathlib.Tactic.Common

/-!
# Queues on several levels

A list of first-in first-out queues, the first one having the highest priority.
`popFirst` takes the head of the first queue that has one, `pushAt` adds an element to
the end of the queue of a level. Neither loses or duplicates an element: seen as one
multiset (`flatten` up to permutation), a push adds its element and a pop removes its.
-/

set_option autoImplicit false

namespace Comp30023.Library

variable {α : Type}

/-- The head of the first queue that has one, and the queues without it. -/
def popFirst : List (List α) → Option (α × List (List α))
  | [] => none
  | [] :: rest => (popFirst rest).map fun (e, rest') => (e, [] :: rest')
  | (e :: q) :: rest => some (e, q :: rest)

/-- An element at the end of the queue of a level. -/
def pushAt (level : ℕ) (e : α) (qs : List (List α)) : List (List α) :=
  qs.modify level (· ++ [e])

@[simp] theorem length_pushAt (level : ℕ) (e : α) (qs : List (List α)) :
    (pushAt level e qs).length = qs.length := by
  simp [pushAt]

/-- INTERNAL: what the queues are after a push. -/
theorem getElem?_pushAt (level : ℕ) (e : α) (qs : List (List α)) (k : ℕ) :
    (pushAt level e qs)[k]? = if k = level then qs[k]?.map (· ++ [e]) else qs[k]? := by
  unfold pushAt
  by_cases h : k = level
  · subst h
    simp
  · rw [List.getElem?_modify_ne _ _ (Ne.symm h), if_neg h]

/-- INTERNAL: a pop takes the head of a queue, and all queues before it are empty. -/
theorem popFirst_eq_some {qs qs' : List (List α)} {e : α} (h : popFirst qs = some (e, qs')) :
    ∃ k q, qs[k]? = some (e :: q) ∧ qs' = qs.set k q ∧ ∀ j < k, qs[j]? = some [] := by
  induction qs generalizing qs' with
  | nil => simp [popFirst] at h
  | cons q qs ih =>
    cases q with
    | cons x q =>
      simp only [popFirst, Option.some.injEq, Prod.mk.injEq] at h
      obtain ⟨rfl, rfl⟩ := h
      exact ⟨0, q, rfl, rfl, by simp⟩
    | nil =>
      simp only [popFirst, Option.map_eq_some_iff] at h
      obtain ⟨⟨x, rest⟩, hrest, heq⟩ := h
      simp only [Prod.mk.injEq] at heq
      obtain ⟨rfl, rfl⟩ := heq
      obtain ⟨k, q, hk, rfl, hbefore⟩ := ih hrest
      refine ⟨k + 1, q, by simpa using hk, rfl, ?_⟩
      intro j hj
      cases j with
      | zero => rfl
      | succ j => simpa using hbefore j (by omega)

/-- INTERNAL: there is nothing to pop exactly when every queue is empty. -/
theorem popFirst_eq_none {qs : List (List α)} : popFirst qs = none ↔ ∀ q ∈ qs, q = [] := by
  induction qs with
  | nil => simp [popFirst]
  | cons q qs ih =>
    cases q with
    | cons x q => simp [popFirst]
    | nil => simp [popFirst, ih]

/-- INTERNAL: an empty multiset of elements means that every queue is empty. -/
theorem popFirst_eq_none_iff_flatten {qs : List (List α)} :
    popFirst qs = none ↔ qs.flatten = [] := by
  rw [popFirst_eq_none, List.flatten_eq_nil_iff]

/-- A pop removes its element and no other. -/
theorem popFirst_perm {qs qs' : List (List α)} {e : α} (h : popFirst qs = some (e, qs')) :
    qs.flatten.Perm (e :: qs'.flatten) := by
  induction qs generalizing qs' with
  | nil => simp [popFirst] at h
  | cons q qs ih =>
    cases q with
    | cons x q =>
      simp only [popFirst, Option.some.injEq, Prod.mk.injEq] at h
      obtain ⟨rfl, rfl⟩ := h
      exact List.Perm.refl _
    | nil =>
      simp only [popFirst, Option.map_eq_some_iff] at h
      obtain ⟨⟨x, rest⟩, hrest, heq⟩ := h
      simp only [Prod.mk.injEq] at heq
      obtain ⟨rfl, rfl⟩ := heq
      simpa using ih hrest

/-- A push adds its element and no other. -/
theorem pushAt_perm {level : ℕ} {qs : List (List α)} (hlt : level < qs.length) (e : α) :
    (pushAt level e qs).flatten.Perm (e :: qs.flatten) := by
  unfold pushAt
  induction qs generalizing level with
  | nil => simp at hlt
  | cons q qs ih =>
    cases level with
    | zero =>
      simp only [List.modify_zero_cons, List.flatten_cons, List.append_assoc,
        List.singleton_append]
      exact List.perm_middle
    | succ level =>
      simp only [List.modify_succ_cons, List.flatten_cons]
      exact ((ih (by simpa using hlt)).append_left q).trans List.perm_middle

/-- INTERNAL: pushing and renaming the elements commute. -/
theorem pushAt_map {β : Type} (f : α → β) (level : ℕ) (e : α) (qs : List (List α)) :
    (pushAt level e qs).map (List.map f) = pushAt level (f e) (qs.map (List.map f)) := by
  unfold pushAt
  induction qs generalizing level with
  | nil => simp
  | cons q qs ih =>
    cases level with
    | zero => simp
    | succ level => simpa using ih level

end Comp30023.Library
