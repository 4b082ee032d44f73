import Comp30023.Library.Loop

/-!
# Computations that may stop

Pre- and postconditions for computations in `Except`: what holds if the computation goes on,
and what holds if it has stopped. The rules are those of a program logic: sequencing,
weakening, and one for loops, where the postcondition of the body is its invariant.
-/

set_option autoImplicit false

namespace Comp30023.Library

variable {ε ε' α β σ : Type}

/-- `post` holds of the result if the computation goes on, `stop` if it has stopped. -/
def Outcome (post : α → Prop) (stop : ε → Prop) : Except ε α → Prop
  | .ok a => post a
  | .error e => stop e

/-- The rule for sequencing. -/
theorem Outcome.bind {mid : α → Prop} {post : β → Prop} {stop : ε → Prop} {x : Except ε α}
    {f : α → Except ε β} (hx : Outcome mid stop x)
    (hf : ∀ a, mid a → Outcome post stop (f a)) : Outcome post stop (x >>= f) := by
  cases x with
  | error e => exact hx
  | ok a => exact hf a hx

/-- INTERNAL: from a result of two parts, the result of the first. -/
theorem bind_eq_ok {x : Except ε α} {f : α → Except ε β} {b : β}
    (h : x >>= f = .ok b) : ∃ a, x = .ok a ∧ f a = .ok b := by
  cases x with
  | error e => cases h
  | ok a => exact ⟨a, rfl, h⟩

/-- The rule of consequence. -/
theorem Outcome.mono {post post' : α → Prop} {stop stop' : ε → Prop} {x : Except ε α}
    (hx : Outcome post stop x) (hpost : ∀ a, post a → post' a) (hstop : ∀ e, stop e → stop' e) :
    Outcome post' stop' x := by
  cases x with
  | error e => exact hstop e hx
  | ok a => exact hpost a hx

/-- The rule of conjunction. -/
theorem Outcome.and {post post' : α → Prop} {stop stop' : ε → Prop} {x : Except ε α}
    (hx : Outcome post stop x) (hx' : Outcome post' stop' x) :
    Outcome (fun a => post a ∧ post' a) (fun e => stop e ∧ stop' e) x := by
  cases x with
  | error e => exact ⟨hx, hx'⟩
  | ok a => exact ⟨hx, hx'⟩

/-- INTERNAL: a change of the way to stop. -/
theorem Outcome.mapError {post : α → Prop} {stop : ε → Prop} {stop' : ε' → Prop}
    {x : Except ε α} {g : ε → ε'} (hx : Outcome post stop x)
    (hstop : ∀ e, stop e → stop' (g e)) : Outcome post stop' (x.mapError g) := by
  cases x with
  | error e => exact hstop e hx
  | ok a => exact hx

/-- The rule for loops: what every pass keeps holds after any number of passes. -/
theorem outcome_loop {body : σ → Except ε (Pass σ)} {inv : σ → Prop} {stop : ε → Prop}
    (hbody : ∀ s, inv s → Outcome (fun p => inv p.state) stop (body s)) (n : ℕ) (s : σ)
    (hs : inv s) : Outcome (fun p => inv p.state) stop (loop body n s) := by
  induction n generalizing s with
  | zero => exact hs
  | succ n ih =>
    have hpass := hbody s hs
    simp only [loop]
    cases hb : body s with
    | error e =>
      rw [hb] at hpass
      exact hpass
    | ok p =>
      rw [hb] at hpass
      cases p with
      | done t => exact hpass
      | again t => exact ih t hpass

end Comp30023.Library
