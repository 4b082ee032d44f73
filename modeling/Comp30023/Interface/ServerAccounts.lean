import Comp30023.Interface.ServerLocks

/-!
# Accounts

A number that is changed only by what session threads do is, at any time, the sum of the changes
that the threads have made so far. The counters of the server are such numbers, and so are the
numbers of lines of each kind in the log file.
-/

set_option autoImplicit false

namespace Comp30023.Interface

open Comp30023.Library Comp30023.Model

/-- The sum of what these events change. -/
def weigh (w : ServerEvent → ℤ) (events : List ServerEvent) : ℤ := (events.map w).sum

theorem weigh_append (w : ServerEvent → ℤ) (events events' : List ServerEvent) :
    weigh w (events ++ events') = weigh w events + weigh w events' := by
  rw [weigh, List.map_append, List.sum_append]
  rfl

/-- The number `q` is changed by `w event` when a session thread performs `event`, and not by
`main` as long as it leaves the statistics alone. -/
structure Account (w : ServerEvent → ℤ) (q : Shared → List LogEntry → ℤ) : Prop where
  perform : ∀ shared shared' event lines, shared.perform event = some shared' →
    q shared' (lines ++ eventLines event) = q shared lines + w event
  quiet : ∀ shared shared' event lines, isQuiet event = true →
    shared.performMain event = some shared' → q shared' (lines ++ mainLines event) = q shared lines

/-- The number is the sum of the changes that the threads have made. -/
def Balanced (w : ServerEvent → ℤ) (q : Shared → List LogEntry → ℤ) (σ : ServerState)
    (log : List (Option ℕ × LogEntry)) : Prop :=
  q σ.shared (log.map Prod.snd) = total (fun thread => weigh w thread.done) σ.threads

section Steps

variable {w : ServerEvent → ℤ} {q : Shared → List LogEntry → ℤ} {sec : Option ℕ → Section}
  {σ τ : ServerState} {log : List (Option ℕ × LogEntry)}

/-- INTERNAL: an event keeps the balance. -/
theorem Balanced.event (h : Balanced w q σ log) (haccount : Account w q)
    (hlaws : AgentLaws sec σ) {a : Option ℕ} {lines : List LogEntry}
    (hstep : EventStep σ a lines τ) : Balanced w q τ (log ++ lines.map (Prod.mk a)) := by
  have hlines : (log ++ lines.map (Prod.mk a)).map Prod.snd = log.map Prod.snd ++ lines := by
    rw [List.map_append, List.map_map, show Prod.snd ∘ Prod.mk a = (id : LogEntry → LogEntry) from rfl,
      List.map_id]
  unfold Balanced at h ⊢
  rw [hlines]
  cases hstep with
  | @thread i thread event shared hthread hevent hperform =>
    have htotal := total_set (fun thread : SessionThread => weigh w thread.done) thread.next hthread
    have hnext : weigh w thread.next.done = weigh w thread.done + w event := by
      rw [done_next hevent, weigh_append]
      simp [weigh]
    have hchange := haccount.perform _ _ _ (log.map Prod.snd) hperform
    dsimp only
    omega
  | main hmain hperform =>
    have hquiet := hlaws.quiet
    rw [hmain] at hquiet
    rw [haccount.quiet _ _ _ _ (hquiet _ List.mem_cons_self) hperform]
    exact h

/-- INTERNAL: a turn that is no event keeps the balance. -/
theorem Balanced.other (h : Balanced w q σ log) (hlaws : AgentLaws sec σ)
    (hstep : ServerStep σ τ) (hother : ∀ a lines, ¬ EventStep σ a lines τ) :
    Balanced w q τ log := by
  unfold Balanced at h ⊢
  rw [(hlaws.other hstep hother).2, h]
  cases hstep with
  | create hmain =>
    have hnew : ∀ input, (SessionThread.start input).done = [] :=
      fun input => (threadWith_start (orderly_startSession input)).2
    simp [total, hnew, weigh]
  | mainEvent hmain hperform => exact absurd (.main hmain hperform) (hother _ _)
  | threadEvent hthread hevent hperform =>
    exact absurd (.thread hthread hevent hperform) (hother _ _)
  | @receive i thread r hthread hdone hgoes hreceive =>
    have hin := (hlaws.thread i thread hthread).orderly
    have hsame := (ThreadWith.receive hin hgoes ((hin.goesOn hgoes).checkGuess r)).2
    have htotal := total_set (fun thread : SessionThread => weigh w thread.done)
      (thread.receive r) hthread
    dsimp only at htotal ⊢
    rw [hsame] at htotal
    omega
  | _ => rfl

end Steps

/-! ## The statistics -/

/-- What events change in `clients_count`. -/
def clientsChange : ServerEvent → ℤ
  | .count .clientsCount change => change
  | _ => 0

/-- What events change in `clients_win_count`. -/
def winsChange : ServerEvent → ℤ
  | .count .clientsWinCount change => change
  | _ => 0

/-- The lines about a won game that events write. -/
def successLine : ServerEvent → ℤ
  | .log .successGameOver => 1
  | _ => 0

/-- The number of lines in the log file about a won game. -/
def successes (lines : List LogEntry) : ℕ := lines.count (.session .successGameOver)

theorem successes_append (lines lines' : List LogEntry) :
    successes (lines ++ lines') = successes lines + successes lines' :=
  List.count_append

/-- INTERNAL: a quiet event performed by `main` changes neither counter, nor the number of lines
about won games. -/
theorem quiet_performMain {shared shared' : Shared} {event : MainEvent}
    (hquiet : isQuiet event = true) (hperform : shared.performMain event = some shared') :
    shared'.clientsCount = shared.clientsCount ∧
      shared'.clientsWinCount = shared.clientsWinCount ∧ successes (mainLines event) = 0 := by
  cases event with
  | act event =>
    cases event with
    | lock mutex =>
      simp only [Shared.performMain, Shared.perform, Option.ite_none_left_eq_some,
        Option.some.injEq] at hperform
      obtain ⟨-, rfl⟩ := hperform
      exact ⟨rfl, rfl, rfl⟩
    | count counter change =>
      obtain rfl : counter = .clientsNowCount := by simpa [isQuiet] using hquiet
      cases hperform
      exact ⟨rfl, rfl, rfl⟩
    | log line =>
      cases hperform
      refine ⟨rfl, rfl, ?_⟩
      have hline : line ≠ .successGameOver := by
        simp only [isQuiet, Bool.decide_and, Bool.and_eq_true, decide_eq_true_eq] at hquiet
        exact hquiet.2
      simp [successes, mainLines, eventLines, hline]
    | _ =>
      cases hperform
      exact ⟨rfl, rfl, rfl⟩
  | _ =>
    cases hperform
    exact ⟨rfl, rfl, rfl⟩

theorem account_clients : Account clientsChange fun shared _ => shared.clientsCount := by
  constructor
  · intro shared shared' event lines hperform
    unfold Shared.perform at hperform
    split at hperform <;> first | (split_ifs at hperform) | skip
    all_goals
      cases hperform
      simp [clientsChange]
  · exact fun shared shared' event lines hquiet hperform => (quiet_performMain hquiet hperform).1

theorem account_wins : Account winsChange fun shared _ => shared.clientsWinCount := by
  constructor
  · intro shared shared' event lines hperform
    unfold Shared.perform at hperform
    split at hperform <;> first | (split_ifs at hperform) | skip
    all_goals
      cases hperform
      simp [winsChange]
  · exact fun shared shared' event lines hquiet hperform => (quiet_performMain hquiet hperform).2.1

theorem account_successes : Account successLine fun _ lines => successes lines := by
  constructor
  · intro shared shared' event lines _
    rw [successes_append]
    push_cast
    congr 1
    cases event with
    | log line => cases line <;> rfl
    | _ => rfl
  · intro shared shared' event lines hquiet hperform
    rw [successes_append, (quiet_performMain hquiet hperform).2.2]
    rfl

end Comp30023.Interface
