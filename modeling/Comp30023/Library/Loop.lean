import Mathlib.Data.Nat.Basic
import Mathlib.Tactic.Common

/-!
# Loops that run until their body breaks

A `while (1)` loop is a body `σ → Except ε (Pass σ)`: one pass either goes round
`again`, breaks out (`done`), or runs into a fault `ε`. `loop body n` makes at
most `n` passes, so a statement about every `n` is a statement about every state
at the top of the loop, and "the loop exits" is the existence of an `n` whose
result is `done`.

The rules below are the only way the rest of the development reasons about runs: a
termination rule with a measure, a simulation rule that carries a relation between two
loops over any number of passes, one for a loop that follows another pass by pass, and one for
loops of which one makes many passes while the other makes few.
-/

set_option autoImplicit false

namespace Comp30023.Library

/-- What one pass through the body of a loop leads to. -/
inductive Pass (σ : Type) where
  | again (s : σ)
  | done (s : σ)
deriving Repr, DecidableEq

/-- The state a pass ends in, whether or not the loop was left. -/
def Pass.state {σ : Type} : Pass σ → σ
  | .again s => s
  | .done s => s

section Runs

variable {ε σ : Type}

/-- At most `n` passes through the body, starting at the top of the loop. -/
def loop (body : σ → Except ε (Pass σ)) : ℕ → σ → Except ε (Pass σ)
  | 0, s => .ok (.again s)
  | n + 1, s =>
    match body s with
    | .error e => .error e
    | .ok (.done t) => .ok (.done t)
    | .ok (.again t) => loop body n t

/-- `t` is a state at the top of the loop in some run from `s`. -/
def Reaches (body : σ → Except ε (Pass σ)) (s t : σ) : Prop :=
  ∃ n, loop body n s = .ok (.again t)

/-- The loop started in `s` is left in state `t`. -/
def Exits (body : σ → Except ε (Pass σ)) (s t : σ) : Prop :=
  ∃ n, loop body n s = .ok (.done t)

/-- The loop started in `s` runs into the fault `e`. -/
def Faults (body : σ → Except ε (Pass σ)) (s : σ) (e : ε) : Prop :=
  ∃ n, loop body n s = .error e

variable {body : σ → Except ε (Pass σ)}

/-- INTERNAL: a run of `m + n` passes is a run of `m` followed, unless the loop
was left, by a run of `n`. -/
theorem loop_add (m n : ℕ) (s : σ) :
    loop body (m + n) s =
      match loop body m s with
      | .error e => .error e
      | .ok (.done t) => .ok (.done t)
      | .ok (.again t) => loop body n t := by
  induction m generalizing s with
  | zero => simp [loop]
  | succ m ih =>
    rw [Nat.succ_add]
    simp only [loop]
    cases body s with
    | error e => rfl
    | ok p =>
      cases p with
      | done t => rfl
      | again t => exact ih t

/-- INTERNAL: the last pass of a run that is back at the top of the loop. -/
theorem loop_succ_again {n : ℕ} {s u : σ} (h : loop body (n + 1) s = .ok (.again u)) :
    ∃ t, loop body n s = .ok (.again t) ∧ body t = .ok (.again u) := by
  rw [loop_add n 1 s] at h
  cases hn : loop body n s with
  | error e => simp [hn] at h
  | ok p =>
    cases p with
    | done t => simp [hn] at h
    | again t =>
      refine ⟨t, rfl, ?_⟩
      simp only [hn, loop] at h
      cases hb : body t with
      | error e => simp [hb] at h
      | ok q =>
        cases q with
        | done v => simp [hb] at h
        | again v => simpa [hb] using h

/-- INTERNAL: a loop that is left was at the top once more just before. -/
theorem exits_last {n : ℕ} {s u : σ} (h : loop body n s = .ok (.done u)) :
    ∃ m t, m < n ∧ loop body m s = .ok (.again t) ∧ body t = .ok (.done u) := by
  induction n generalizing s with
  | zero => simp [loop] at h
  | succ n ih =>
    simp only [loop] at h
    cases hb : body s with
    | error e => simp [hb] at h
    | ok p =>
      cases p with
      | done t =>
        simp only [hb, Except.ok.injEq, Pass.done.injEq] at h
        exact ⟨0, s, by omega, rfl, by rw [hb, h]⟩
      | again t =>
        simp only [hb] at h
        obtain ⟨m, v, hm, hv, hlast⟩ := ih h
        exact ⟨m + 1, v, by omega, by simp only [loop, hb, hv], hlast⟩

/-- INTERNAL: a loop that ends keeps its result however many more passes are allowed. -/
theorem loop_done_mono {n m : ℕ} {s u : σ} (h : loop body n s = .ok (.done u)) (hle : n ≤ m) :
    loop body m s = .ok (.done u) := by
  obtain ⟨k, rfl⟩ := Nat.exists_eq_add_of_le hle
  rw [loop_add, h]

/-- INTERNAL: the state in which a loop is left is unique. -/
theorem Exits.unique {s t u : σ} (ht : Exits body s t) (hu : Exits body s u) : t = u := by
  obtain ⟨n, hn⟩ := ht
  obtain ⟨m, hm⟩ := hu
  have h₁ := loop_done_mono hn (Nat.le_max_left n m)
  have h₂ := loop_done_mono hm (Nat.le_max_right n m)
  simpa using h₁.symm.trans h₂

/-- INTERNAL: a loop that is left at once. -/
theorem exits_of_done {s t : σ} (h : body s = .ok (.done t)) : Exits body s t :=
  ⟨1, by simp [loop, h]⟩

/-- INTERNAL: a loop that is left after another pass. -/
theorem exits_of_again {s t u : σ} (h : body s = .ok (.again t)) (hexits : Exits body t u) :
    Exits body s u := by
  obtain ⟨n, hn⟩ := hexits
  exact ⟨n + 1, by simp only [loop, h, hn]⟩

/-- INTERNAL: a loop that runs into a fault at once. -/
theorem faults_of_error {s : σ} {e : ε} (h : body s = .error e) : Faults body s e :=
  ⟨1, by simp [loop, h]⟩

/-- INTERNAL: a loop that runs into a fault after another pass. -/
theorem faults_of_again {s t : σ} {e : ε} (h : body s = .ok (.again t))
    (hfaults : Faults body t e) : Faults body s e := by
  obtain ⟨n, hn⟩ := hfaults
  exact ⟨n + 1, by simp only [loop, h, hn]⟩

/-- The invariant rule: what every pass that goes round again keeps holds at the top of the
loop. -/
theorem Reaches.invariant {Inv : σ → Prop}
    (hstep : ∀ u v, Inv u → body u = .ok (.again v) → Inv v) {s t : σ} (h : Reaches body s t)
    (hinit : Inv s) : Inv t := by
  obtain ⟨n, hn⟩ := h
  induction n generalizing t with
  | zero =>
    obtain rfl : s = t := by simpa [loop] using hn
    exact hinit
  | succ n ih =>
    obtain ⟨u, hu, hlast⟩ := loop_succ_again hn
    exact hstep u t (ih hu) hlast

/-- The rule for a loop that is never left: no pass under the invariant breaks out. -/
theorem not_exits_of_invariant {Inv : σ → Prop}
    (hstep : ∀ u v, Inv u → body u = .ok (.again v) → Inv v)
    (hdone : ∀ u v, Inv u → body u ≠ .ok (.done v)) {s : σ} (hinit : Inv s) (t : σ) :
    ¬ Exits body s t := by
  rintro ⟨n, hn⟩
  obtain ⟨m, u, -, hu, hlast⟩ := exits_last hn
  exact hdone u t (Reaches.invariant hstep ⟨m, hu⟩ hinit) hlast

/-- The rule for a loop that never ends well: every pass under the invariant goes round again and
keeps it, or runs into the fault. -/
theorem again_or_faults {Inv : σ → Prop} {e : ε}
    (hstep : ∀ u, Inv u → (∃ v, body u = .ok (.again v) ∧ Inv v) ∨ body u = .error e) (n : ℕ)
    {s : σ} (hinit : Inv s) : (∃ t, loop body n s = .ok (.again t)) ∨ loop body n s = .error e := by
  induction n generalizing s with
  | zero => exact Or.inl ⟨s, rfl⟩
  | succ n ih =>
    rcases hstep s hinit with ⟨v, hv, hinv⟩ | hfault
    · simp only [loop, hv]
      exact ih hinv
    · exact Or.inr (by simp only [loop, hfault])

/-- The termination rule: if every pass that goes round again keeps the invariant
and lowers the measure, every run ends, by a break or by a fault. -/
theorem exits_or_faults_of_measure {Inv : σ → Prop} (μ : σ → ℕ)
    (hstep : ∀ u v, Inv u → body u = .ok (.again v) → Inv v ∧ μ v < μ u) (s : σ) (hinit : Inv s) :
    (∃ t, Exits body s t) ∨ ∃ e, Faults body s e := by
  induction hμ : μ s using Nat.strong_induction_on generalizing s with
  | _ k ih =>
    cases hb : body s with
    | error e => exact Or.inr ⟨e, faults_of_error hb⟩
    | ok p =>
      cases p with
      | done t => exact Or.inl ⟨t, exits_of_done hb⟩
      | again t =>
        obtain ⟨hinv, hlt⟩ := hstep s t hinit hb
        rcases ih (μ t) (by omega) t hinv rfl with ⟨u, hexits⟩ | ⟨e, hfaults⟩
        · exact Or.inl ⟨u, exits_of_again hb hexits⟩
        · exact Or.inr ⟨e, faults_of_again hb hfaults⟩

end Runs

section Simulation

variable {ε σ α : Type}

/-- A loop body without faults, as a body of the general kind. -/
def pureBody (f : α → Pass α) : α → Except Empty (Pass α) := fun a => .ok (f a)

/-- How the result of a concrete run matches an abstract one: both are at the top
of the loop, both have left it, or the concrete run stopped at a fault which the
abstract state explains. -/
inductive Matches (R : σ → α → Prop) (F : α → ε → Prop) :
    Except ε (Pass σ) → Pass α → Prop
  | again {s : σ} {a : α} (h : R s a) : Matches R F (.ok (.again s)) (.again a)
  | done {s : σ} {a : α} (h : R s a) : Matches R F (.ok (.done s)) (.done a)
  | fault {e : ε} {p : Pass α} (h : F p.state e) : Matches R F (.error e) p

/-- The simulation rule: a relation kept by one pass of each loop is kept by any
number of passes, provided a recorded fault stays recorded. -/
theorem loop_matches {R : σ → α → Prop} {F : α → ε → Prop}
    {body : σ → Except ε (Pass σ)} {f : α → Pass α}
    (hstep : ∀ s a, R s a → Matches R F (body s) (f a))
    (hfault : ∀ a e, F a e → F (f a).state e)
    (n : ℕ) (s : σ) (a : α) (h : R s a) :
    ∃ p, loop (pureBody f) n a = .ok p ∧ Matches R F (loop body n s) p := by
  have hpersist : ∀ (n : ℕ) (a : α) (e : ε), F a e →
      ∃ p, loop (pureBody f) n a = .ok p ∧ F p.state e := by
    intro n
    induction n with
    | zero => exact fun a e hF => ⟨.again a, rfl, hF⟩
    | succ n ih =>
      intro a e hF
      have hF' := hfault a e hF
      simp only [loop, pureBody]
      cases hf : f a with
      | done b => exact ⟨.done b, rfl, by simpa [hf] using hF'⟩
      | again b => exact ih b e (by simpa [hf, Pass.state] using hF')
  induction n generalizing s a with
  | zero => exact ⟨.again a, rfl, .again h⟩
  | succ n ih =>
    have hs := hstep s a h
    simp only [loop, pureBody]
    generalize hb : body s = r at hs
    generalize hf : f a = p at hs
    cases hs with
    | again h' => exact ih _ _ h'
    | done h' => exact ⟨_, rfl, .done h'⟩
    | fault hF =>
      rename_i e
      cases p with
      | done b => exact ⟨.done b, rfl, .fault hF⟩
      | again b =>
        obtain ⟨q, hq, hFq⟩ := hpersist n b e hF
        exact ⟨q, hq, .fault hFq⟩

/-- Two passes that end alike, in related states. -/
inductive PassesAlike {τ : Type} (R : σ → τ → Prop) : Pass σ → Pass τ → Prop
  | again {s : σ} {t : τ} (h : R s t) : PassesAlike R (.again s) (.again t)
  | done {s : σ} {t : τ} (h : R s t) : PassesAlike R (.done s) (.done t)

/-- The rule for a loop that follows another one pass by pass: it is left when the other one is, in
a related state. -/
theorem Exits.follow {τ ε' : Type} {R : σ → τ → Prop} {body : σ → Except ε (Pass σ)}
    {body' : τ → Except ε' (Pass τ)}
    (hstep : ∀ s t p, R s t → body s = .ok p → ∃ p', body' t = .ok p' ∧ PassesAlike R p p')
    {s u : σ} {t : τ} (h : R s t) (hexits : Exits body s u) :
    ∃ v, Exits body' t v ∧ R u v := by
  obtain ⟨n, hn⟩ := hexits
  induction n generalizing s t with
  | zero => simp [loop] at hn
  | succ n ih =>
    cases hb : body s with
    | error e => simp [loop, hb] at hn
    | ok p =>
      obtain ⟨p', hp', halike⟩ := hstep s t p h hb
      cases halike with
      | done hR =>
        simp only [loop, hb, Except.ok.injEq, Pass.done.injEq] at hn
        exact ⟨_, exits_of_done hp', hn ▸ hR⟩
      | again hR =>
        simp only [loop, hb] at hn
        obtain ⟨v, hv, hRv⟩ := ih hR hn
        exact ⟨v, exits_of_again hp' hv, hRv⟩

/-- The stuttering rule: a loop whose passes match one pass of another loop or none of them,
and whose last pass matches the last pass of the other, can only be left when the other one
is. -/
theorem exits_of_stutter {β : Type} {f : α → Pass α} {g : β → Pass β} {R Q : α → β → Prop}
    (hagain : ∀ a b a', R a b → f a = .again a' → R a' b ∨ ∃ b', g b = .again b' ∧ R a' b')
    (hdone : ∀ a b a', R a b → f a = .done a' → ∃ b', g b = .done b' ∧ Q a' b')
    (n : ℕ) (a : α) (b : β) (a' : α) (h : R a b) (hn : loop (pureBody f) n a = .ok (.done a')) :
    ∃ b', Exits (pureBody g) b b' ∧ Q a' b' := by
  induction n generalizing a b with
  | zero => simp [loop] at hn
  | succ n ih =>
    simp only [loop, pureBody] at hn
    cases hf : f a with
    | done t =>
      simp only [hf, Except.ok.injEq, Pass.done.injEq] at hn
      obtain ⟨b', hg, hQ⟩ := hdone a b t h hf
      exact ⟨b', ⟨1, by simp [loop, pureBody, hg]⟩, hn ▸ hQ⟩
    | again t =>
      simp only [hf] at hn
      rcases hagain a b t h hf with hstay | ⟨b₁, hg, hmove⟩
      · exact ih t b hstay hn
      · obtain ⟨b', ⟨k, hk⟩, hQ⟩ := ih t b₁ hmove hn
        exact ⟨b', ⟨k + 1, by simpa [loop, pureBody, hg] using hk⟩, hQ⟩

end Simulation

end Comp30023.Library
