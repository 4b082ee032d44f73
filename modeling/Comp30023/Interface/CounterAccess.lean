import Mathlib.Logic.Function.Basic
import Comp30023.Interface.ServerLocks

/-!
# Counters in main memory

`clients_now_count++` and its like are no single turn on a real machine: the old value is loaded,
and the new one is stored in a later turn. `FineStep` is the server in which everyone may take
turns between the two.
-/

set_option autoImplicit false

namespace Comp30023.Interface

open Comp30023.Library Comp30023.Model

/-- SOURCE: server.c:79 -/
def valueOf (shared : Shared) : Counter → ℤ
  | .clientsNowCount => shared.clientsNowCount
  | .clientsCount => shared.clientsCount
  | .clientsWinCount => shared.clientsWinCount

def storeValue (shared : Shared) (value : ℤ) : Counter → Shared
  | .clientsNowCount => { shared with clientsNowCount := value }
  | .clientsCount => { shared with clientsCount := value }
  | .clientsWinCount => { shared with clientsWinCount := value }

/-- The mutex of a counter.
SOURCE: server.c:79-81 -/
def guardOf : Counter → Mutex
  | .clientsNowCount => .clientsNowCount
  | .clientsCount => .clientsCount
  | .clientsWinCount => .clientsWinCount

/-- The counter that an agent with these events to go changes next. -/
def nextCount : List MainEvent → Option (Counter × ℤ)
  | .act (.count counter change) :: _ => some (counter, change)
  | _ => none

/-- The server, and what its agents have loaded from a counter and not yet stored. -/
structure FineState where
  server : ServerState
  loaded : Option ℕ → Option ℤ

def FineState.initial (argument : Option (List UInt8)) : FineState :=
  { server := ServerState.initial argument, loaded := fun _ => none }

/-- One turn, in which a counter is not both loaded and stored.
SOURCE: server.c:161-191 -/
inductive FineStep : FineState → FineState → Prop
  | other {φ : FineState} {τ : ServerState} (hstep : ServerStep φ.server τ)
      (hother : ∀ a lines, ¬ EventStep φ.server a lines τ) : FineStep φ { φ with server := τ }
  | event {φ : FineState} {τ : ServerState} {a : Option ℕ} {lines : List LogEntry}
      (hstep : EventStep φ.server a lines τ) (hcount : nextCount (remaining φ.server a) = none) :
      FineStep φ { φ with server := τ }
  | load {φ : FineState} {a : Option ℕ} {counter : Counter} {change : ℤ}
      (hcount : nextCount (remaining φ.server a) = some (counter, change))
      (hloaded : φ.loaded a = none) :
      FineStep φ
        { φ with loaded := Function.update φ.loaded a (some (valueOf φ.server.shared counter)) }
  | store {φ : FineState} {τ : ServerState} {a : Option ℕ} {lines : List LogEntry}
      {counter : Counter} {change value : ℤ} (hstep : EventStep φ.server a lines τ)
      (hcount : nextCount (remaining φ.server a) = some (counter, change))
      (hloaded : φ.loaded a = some value) :
      FineStep φ
        { server := { τ with shared := storeValue φ.server.shared (value + change) counter }
          loaded := Function.update φ.loaded a none }

/-! ## What the turns change -/

section Turns

variable {σ τ : ServerState} {a : Option ℕ} {sec : Option ℕ → Section}

theorem perform_count (shared : Shared) (counter : Counter) (change : ℤ) :
    shared.perform (.count counter change) =
      some (storeValue shared (valueOf shared counter + change) counter) := by
  cases counter <;> rfl

theorem valueOf_storeValue (shared : Shared) (value : ℤ) {counter counter' : Counter}
    (h : counter' ≠ counter) :
    valueOf (storeValue shared value counter) counter' = valueOf shared counter' := by
  cases counter <;> cases counter' <;> first | rfl | exact absurd rfl h

/-- INTERNAL: an event that is no count leaves all counters alone. -/
theorem valueOf_performMain {shared shared' : Shared} {event : MainEvent} {events : List MainEvent}
    (hcount : nextCount (event :: events) = none) (h : shared.performMain event = some shared')
    (counter : Counter) : valueOf shared' counter = valueOf shared counter := by
  cases event with
  | act event =>
    cases event with
    | lock mutex =>
      simp only [Shared.performMain, Shared.perform, Option.ite_none_left_eq_some,
        Option.some.injEq] at h
      rw [← h.2]
      cases counter <;> rfl
    | unlock mutex =>
      cases h
      cases counter <;> rfl
    | count counter change => cases hcount
    | _ =>
      cases h
      rfl
  | _ =>
    cases h
    rfl

/-- INTERNAL: an agent that is about to change a counter holds its mutex.
SOURCE: server.c:161-191 -/
theorem AgentLaws.guardOf_mem (h : AgentLaws sec σ) {counter : Counter} {change : ℤ}
    (hcount : nextCount (remaining σ a) = some (counter, change)) :
    guardOf counter ∈ (sec a).held := by
  obtain ⟨whole, -, hgo⟩ := h.leadsOut a
  unfold nextCount at hcount
  split at hcount
  · rename_i counter' change' events hremaining
    obtain ⟨rfl, rfl⟩ := Prod.mk.inj (Option.some.inj hcount)
    rw [hremaining] at hgo
    obtain ⟨c, henter, -⟩ := Option.bind_eq_some_iff.mp hgo
    cases counter' <;>
      simp only [Section.enterMain, Section.enter, Option.ite_none_right_eq_some] at henter
    · exact henter.1
    · exact henter.1.1
    · exact henter.1.1
  · cases hcount

/-- INTERNAL: storing the new value does what counting in a single turn does. -/
theorem EventStep.storeValue {lines : List LogEntry} {counter : Counter} {change : ℤ}
    (hstep : EventStep σ a lines τ) (hcount : nextCount (remaining σ a) = some (counter, change)) :
    Interface.storeValue σ.shared (valueOf σ.shared counter + change) counter = τ.shared := by
  obtain ⟨event, hself, hperform, -, -⟩ := hstep.takesOne
  rw [hself] at hcount
  unfold nextCount at hcount
  split at hcount
  · rename_i heq
    obtain ⟨rfl, -⟩ := List.cons.inj heq
    obtain ⟨rfl, rfl⟩ := Prod.mk.inj (Option.some.inj hcount)
    exact Option.some.inj ((perform_count _ _ _).symm.trans hperform)
  · cases hcount

/-- INTERNAL: a turn that is no event leaves alone what the agents have to go. -/
theorem remaining_other (hstep : ServerStep σ τ) (hother : ∀ a lines, ¬ EventStep σ a lines τ)
    (h : remaining σ a ≠ []) : remaining τ a = remaining σ a := by
  have hmove : ∀ main : MainPoint, pendingMain σ.main = [] →
      remaining { σ with main := main } a = remaining σ a := by
    intro main hidle
    cases a with
    | none => exact absurd hidle h
    | some i => rfl
  cases hstep with
  | retry => rfl
  | accept hmain => exact hmove _ (by rw [hmain]; rfl)
  | full hmain => exact hmove _ (by rw [hmain]; rfl)
  | room hmain => exact hmove _ (by rw [hmain]; rfl)
  | createFails hmain => exact hmove _ (by rw [hmain]; rfl)
  | comeBack hmain => exact hmove _ (by rw [hmain]; rfl)
  | exit hmain => exact hmove _ (by rw [hmain]; rfl)
  | create hmain =>
    cases a with
    | none => exact absurd (by rw [remaining, hmain]; rfl) h
    | some i =>
      have hlt : i < σ.threads.length := by
        by_contra hge
        apply h
        simp [remaining, List.getElem?_eq_none (Nat.not_lt.mp hge)]
      simp only [remaining, List.getElem?_append_left hlt]
  | mainEvent hmain hperform => exact absurd (.main hmain hperform) (hother _ _)
  | threadEvent hthread hevent hperform =>
    exact absurd (.thread hthread hevent hperform) (hother _ _)
  | @receive i thread r hthread hdone hgoes hreceive =>
    cases a with
    | none => rfl
    | some j =>
      have hne : i ≠ j := by
        rintro rfl
        apply h
        rw [remaining_thread hthread, hdone, List.drop_length]
        rfl
      simp only [remaining, List.getElem?_set_ne hne]

end Turns

end Comp30023.Interface
