import Comp30023.Interface.ServerShutdown

/-!
# A signal while the log file is written

`sig_handler` locks the mutex of the log file, and it runs in the place of some agent of the
server. If that agent has the mutex in its hands, the handler waits for the agent it has
interrupted, and everybody else who has something to log waits for the two of them.
-/

set_option autoImplicit false

namespace Comp30023.Analysis

open Comp30023.Library Comp30023.Model Comp30023.Interface

variable {a : Option ℕ} {log : List (Option ℕ × LogEntry)} {σ : ServerState} {s : Shutdown}
  {argument : Option (List UInt8)}

/-- INTERNAL: only who holds the mutex of the log file writes to it. -/
theorem logFile_of_lines {whole : List LogEntry → Bool} {c c' : Section} {event : MainEvent}
    (h : c.enterMain whole event = some c') (hlines : mainLines event ≠ []) :
    .logFile ∈ c.held := by
  cases event with
  | act event =>
    cases event with
    | log line =>
      simp only [Section.enterMain, Section.enter, Option.ite_none_right_eq_some] at h
      exact h.1.1
    | _ => exact absurd rfl hlines
  | log line =>
    simp only [Section.enterMain, Option.ite_none_right_eq_some] at h
    exact h.1
  | free => exact absurd rfl hlines

/-- INTERNAL: the agent that the signal has reached still holds the mutex, and nobody else does. -/
theorem held_of_run (h : ServerLog argument log σ)
    (hholds : holdsMutex .logFile (remaining σ a) = true)
    (hrun : ShutdownRun a (Shutdown.signal log σ) s) (hwaits : handlerHolds s.handler = false) :
    .logFile ∈ s.server.shared.held ∧
      ∀ b lines τ, b ≠ a → EventStep s.server b lines τ → lines = [] := by
  obtain ⟨sec, agentLog, hlaws⟩ := shutdownLaws_of_run h hrun
  rw [← remaining_of_run hrun, hlaws.agents.holds_iff] at hholds
  have howned := hlaws.shared.owned
  rw [show forAgents s.handler s.server.shared = s.server.shared from
    if_neg (by simp [hwaits])] at howned
  refine ⟨(howned.mem_iff .logFile).mpr ⟨a, hholds⟩, ?_⟩
  intro b lines τ hb hstep
  obtain ⟨_, event, _, -, -, henter, -, -, rfl⟩ := hlaws.agents.event hstep
  by_contra hlines
  exact hb (howned.exclusive b a .logFile (logFile_of_lines henter hlines) hholds)

/-- INTERNAL: a handler that stands before or at its first lock has no mutex in its hands.
SOURCE: server.c:88-92 -/
theorem handlerHolds_of_stands (h : s.handler = sigHandler ∨ s.handler = sigHandler.tail) :
    handlerHolds s.handler = false := by
  rcases h with heq | heq <;> rw [heq] <;> rfl

/-- **A signal while the log file is written.** If a signal reaches an agent of the server while it
holds the mutex of the log file, then whatever the others go on to do, in whatever order: the handler
stands before or at the lock of that mutex, so that the server is not ended; the mutex stays
locked, and not one more line gets into the log file.
SOURCE: server.c:83-159, 161-257, 411-474, 483-623 -/
theorem signal_while_logging (argument : Option (List UInt8))
    {log : List (Option ℕ × LogEntry)} {σ : ServerState} (a : Option ℕ) {s : Shutdown}
    (h : ServerLog argument log σ) (hholds : holdsMutex .logFile (remaining σ a) = true)
    (hrun : ShutdownRun a (Shutdown.signal log σ) s) :
    (s.handler = sigHandler ∨ s.handler = sigHandler.tail) ∧
      .logFile ∈ s.server.shared.held ∧ s.log = log := by
  have hstands : (s.handler = sigHandler ∨ s.handler = sigHandler.tail) ∧ s.log = log := by
    induction hrun with
    | refl => exact ⟨Or.inl rfl, rfl⟩
    | @tail s t hrun hstep ih =>
      obtain ⟨hstands, hlog⟩ := ih
      obtain ⟨hlocked, hnothing⟩ := held_of_run h hholds hrun (handlerHolds_of_stands hstands)
      cases hstep with
      | event _ hb hstep =>
        refine ⟨hstands, ?_⟩
        show s.log ++ _ = log
        rw [hnothing _ _ _ hb hstep, hlog]
        simp
      | other => exact ⟨hstands, hlog⟩
      | @handler event events shared hhandler hperform =>
        rcases hstands with heq | heq
        · rw [heq] at hhandler
          obtain ⟨rfl, rfl⟩ := List.cons.inj hhandler.symm
          refine ⟨Or.inr rfl, ?_⟩
          show s.log ++ _ = log
          rw [hlog]
          exact List.append_nil log
        · -- the handler wants to lock the mutex that is held
          rw [heq] at hhandler
          obtain ⟨rfl, -⟩ := List.cons.inj hhandler.symm
          rw [show s.server.shared.performHandler (.lock .logFile) = none from
            if_pos hlocked] at hperform
          cases hperform
  obtain ⟨hstands, hlog⟩ := hstands
  exact ⟨hstands, (held_of_run h hholds hrun (handlerHolds_of_stands hstands)).1, hlog⟩

/-- The server when `main` is about to log that no thread could be created for a client, with the
mutex of the log file in its hands. -/
def loggingServer : ServerState :=
  { ServerState.initial none with
    shared := ⟨0, 0, 0, [.logFile]⟩
    main := .finishing createFailed.tail true }

/-- INTERNAL: the server comes to that state, and a signal that reaches `main` then does not end
it. -/
theorem signal_while_logging_main :
    ServerLog none [] loggingServer ∧
      ∀ s, ShutdownRun none (Shutdown.signal [] loggingServer) s → s.handler ≠ [] ∧ s.log = [] := by
  have hlogging : ServerLog none [] loggingServer := by
    have haccept := ServerLog.other .start (.accept (σ := ServerState.initial none) rfl
      { secretCode := [], stackBuffer := [], rand := fun _ => 0, reads := [], writes := [] })
      (by rintro a lines ⟨⟩)
    have hroom := haccept.other (.room rfl (show (0 : ℤ) < 40 by decide)) (by rintro a lines ⟨⟩)
    have hfails := hroom.other (.createFails rfl) (by
      intro a lines hevent
      obtain ⟨_, hself, -⟩ := hevent.takesOne
      cases a <;> cases hself)
    exact hfails.event (.main rfl rfl)
  refine ⟨hlogging, fun s hrun => ?_⟩
  obtain ⟨hstands, -, hlog⟩ := signal_while_logging none none hlogging rfl hrun
  refine ⟨?_, hlog⟩
  rcases hstands with heq | heq <;> rw [heq] <;> exact List.cons_ne_nil _ _

end Comp30023.Analysis
