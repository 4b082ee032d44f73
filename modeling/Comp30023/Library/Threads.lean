import Mathlib.Algebra.BigOperators.Group.List.Basic
import Mathlib.Algebra.Order.BigOperators.Group.List
import Mathlib.Algebra.Order.Ring.Int
import Mathlib.Logic.Relation

/-!
# Threads over shared state

Any number of threads take turns in any order: in a turn one of them takes a step, which
changes its own state and the state that all of them share. What holds over whole runs is found
by giving every thread a weight. If every step of a thread keeps the sum of its weight and of
some number that is read off the shared state, every turn keeps the sum over all threads; and
if every step lowers the weight of the thread, the threads come to rest.
-/

set_option autoImplicit false

namespace Comp30023.Library

/-- The shared state, and the state of each thread. -/
structure Threads (σ τ : Type) where
  shared : σ
  threads : List τ
deriving Repr, DecidableEq

variable {σ τ : Type} {step : τ → σ → τ → σ → Prop} {s s' : Threads σ τ}

/-- One of the threads takes a step. -/
inductive Turn (step : τ → σ → τ → σ → Prop) : Threads σ τ → Threads σ τ → Prop
  | take {s : Threads σ τ} {i : ℕ} {t t' : τ} {m : σ} (ht : s.threads[i]? = some t)
      (hstep : step t s.shared t' m) : Turn step s ⟨m, s.threads.set i t'⟩

/-- The threads take turns as a schedule says, which has for each turn the number of the thread and
what it chooses. -/
def Threads.follow {ρ ε : Type} (gone : ε) (step : ρ → τ → σ → Except ε (τ × σ)) :
    List (ℕ × ρ) → Threads σ τ → Except ε (Threads σ τ)
  | [], s => .ok s
  | (i, choice) :: schedule, s =>
    match s.threads[i]? with
    | none => .error gone
    | some t =>
      match step choice t s.shared with
      | .error e => .error e
      | .ok (t, m) => follow gone step schedule ⟨m, s.threads.set i t⟩

/-- INTERNAL: a schedule that can be followed is a run. -/
theorem Threads.turns_of_follow {ρ ε : Type} {gone : ε} {step : ρ → τ → σ → Except ε (τ × σ)}
    {schedule : List (ℕ × ρ)} {s s' : Threads σ τ} (h : s.follow gone step schedule = .ok s') :
    Relation.ReflTransGen (Turn fun t m t' m' => ∃ choice, step choice t m = .ok (t', m')) s s' := by
  induction schedule generalizing s with
  | nil =>
    cases h
    exact .refl
  | cons turn schedule ih =>
    obtain ⟨i, choice⟩ := turn
    cases ht : s.threads[i]? with
    | none => simp [Threads.follow, ht] at h
    | some t =>
      cases hstep : step choice t s.shared with
      | error e => simp [Threads.follow, ht, hstep] at h
      | ok result =>
        simp only [Threads.follow, ht, hstep] at h
        exact (ih h).head (.take ht ⟨choice, hstep⟩)

/-! ## Weights -/

section Weights

variable {M : Type} [AddCommMonoid M]

/-- The sum of the weights of the threads. -/
def total (f : τ → M) (threads : List τ) : M := (threads.map f).sum

/-- INTERNAL: one thread is replaced. -/
theorem total_set (f : τ → M) {threads : List τ} {i : ℕ} {t : τ} (t' : τ)
    (ht : threads[i]? = some t) :
    total f (threads.set i t') + f t = total f threads + f t' := by
  induction threads generalizing i with
  | nil => simp at ht
  | cons u threads ih =>
    cases i with
    | zero =>
      obtain rfl : u = t := by simpa using ht
      simp only [List.set_cons_zero, total, List.map_cons, List.sum_cons]
      rw [add_comm (f t'), add_comm (f u), add_right_comm]
    | succ i =>
      have hrest := ih (i := i) (by simpa using ht)
      simp only [List.set_cons_succ, total, List.map_cons, List.sum_cons] at hrest ⊢
      rw [add_assoc, hrest, add_assoc]

/-- INTERNAL: two weights at once. -/
theorem total_add (f g : τ → M) (threads : List τ) :
    total (fun t => f t + g t) threads = total f threads + total g threads :=
  List.sum_map_add

/-- INTERNAL: threads that all have no weight. -/
theorem total_eq_zero {f : τ → M} {threads : List τ} (h : ∀ t ∈ threads, f t = 0) :
    total f threads = 0 := by
  refine List.sum_eq_zero ?_
  intro x hx
  obtain ⟨t, ht, rfl⟩ := List.mem_map.mp hx
  exact h t ht

end Weights

/-- INTERNAL: a weight that is taken off. -/
theorem total_sub (f g : τ → ℤ) (threads : List τ) :
    total (fun t => f t - g t) threads = total f threads - total g threads := by
  have hf : (fun t => f t - g t + g t) = f := funext fun t => Int.sub_add_cancel (f t) (g t)
  have hsum := total_add (fun t => f t - g t) g threads
  rw [hf] at hsum
  omega

/-- INTERNAL: no thread weighs more than all of them. -/
theorem le_total {f : τ → ℤ} (hf : ∀ t, 0 ≤ f t) {threads : List τ} {t : τ} (ht : t ∈ threads) :
    f t ≤ total f threads := by
  refine List.single_le_sum ?_ _ (List.mem_map_of_mem ht)
  intro x hx
  obtain ⟨u, -, rfl⟩ := List.mem_map.mp hx
  exact hf u

/-- INTERNAL: threads without negative weights. -/
theorem total_nonneg {f : τ → ℤ} (hf : ∀ t, 0 ≤ f t) (threads : List τ) : 0 ≤ total f threads := by
  refine List.sum_nonneg ?_
  intro x hx
  obtain ⟨u, -, rfl⟩ := List.mem_map.mp hx
  exact hf u

/-- INTERNAL: a thread with a weight among threads that weigh something. -/
theorem exists_of_total_pos {f : τ → ℤ} {threads : List τ} (h : 0 < total f threads) :
    ∃ t ∈ threads, f t ≠ 0 := by
  by_contra hnone
  push Not at hnone
  rw [total_eq_zero hnone] at h
  exact absurd h (lt_irrefl 0)

/-- The conservation rule: what every step of a thread keeps, every turn keeps. -/
theorem Turn.conserves {q : σ → ℤ} {f : τ → ℤ}
    (hstep : ∀ t t' m', step t s.shared t' m' → q m' + f t' = q s.shared + f t)
    (h : Turn step s s') :
    q s'.shared + total f s'.threads = q s.shared + total f s.threads := by
  obtain ⟨ht, htake⟩ := h
  rename_i i t t' m
  have hlocal := hstep _ _ _ htake
  have htotal := total_set f t' ht
  dsimp only
  omega

/-- INTERNAL: a weight that every step of a thread lowers. -/
theorem Turn.lowers {μ : τ → ℕ} (hstep : ∀ t t' m, step t s.shared t' m → μ t' < μ t)
    (h : Turn step s s') : total μ s'.threads < total μ s.threads := by
  obtain ⟨ht, htake⟩ := h
  rename_i i t t' m
  have hlocal := hstep _ _ _ htake
  have htotal := total_set μ t' ht
  dsimp only
  omega

/-- The rule for coming to rest: when every move under the invariant keeps it and lowers the
measure, a state is reached from which there is none. -/
theorem exists_rest {α : Type} {R : α → α → Prop} {Inv : α → Prop} (μ : α → ℕ)
    (hstep : ∀ a b, Inv a → R a b → Inv b ∧ μ b < μ a) (a : α) (ha : Inv a) :
    ∃ b, Relation.ReflTransGen R a b ∧ Inv b ∧ ∀ c, ¬ R b c := by
  induction hμ : μ a using Nat.strong_induction_on generalizing a with
  | _ n ih =>
    by_cases hmove : ∃ b, R a b
    · obtain ⟨b, hab⟩ := hmove
      obtain ⟨hb, hlt⟩ := hstep a b ha hab
      obtain ⟨c, hbc, hc, hrest⟩ := ih (μ b) (by omega) b hb rfl
      exact ⟨c, hbc.head hab, hc, hrest⟩
    · exact ⟨a, .refl, ha, fun c hac => hmove ⟨c, hac⟩⟩

end Comp30023.Library
