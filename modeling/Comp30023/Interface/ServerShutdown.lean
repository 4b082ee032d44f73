import Mathlib.Data.List.Infix
import Comp30023.Interface.ServerAccounts

/-!
# The server after a signal

`ShutdownRun` continues a run of the server from the moment a signal reaches one of its agents.
That agent stays where it is, perhaps with mutexes in its hands, and the handler runs in its
place; the other agents go on. The laws of the mutexes go on to hold for the agents, when the one
that the handler has locked is left out of those that are held.
-/

set_option autoImplicit false

namespace Comp30023.Interface

open Comp30023.Library Comp30023.Model

/-! ## Runs -/

/-- The agent does nothing between these states. -/
def StaysAt (σ τ : ServerState) : Option ℕ → Prop
  | none => τ.main = σ.main
  | some i => τ.threads[i]? = σ.threads[i]?

/-- What an event of the handler writes to the log file. -/
def handlerLines (shared : Shared) : HandlerEvent → List LogEntry
  | .log line => [.handler (line shared)]
  | _ => []

/-- The handler has still to close the log file. -/
def fileIsOpen (events : List HandlerEvent) : Bool :=
  events.any fun
    | .closeFile => true
    | _ => false

/-- The next thing the handler does with a mutex is to unlock it. -/
def handlerHolds : List HandlerEvent → Bool
  | [] => false
  | .lock _ :: _ => false
  | .unlock _ :: _ => true
  | _ :: events => handlerHolds events

/-- The server after a signal: what is in the log file, the state of the server, and what the
handler has to go. -/
structure Shutdown where
  log : List (Option ℕ × LogEntry)
  server : ServerState
  handler : List HandlerEvent

/-- The signal comes. -/
def Shutdown.signal (log : List (Option ℕ × LogEntry)) (σ : ServerState) : Shutdown :=
  { log := log, server := σ, handler := sigHandler }

/-- One turn after a signal has reached the agent `a`: of another agent, or of the handler, until
that has come to its end. What is written to the log file after it was closed, which C leaves
undefined, does not get there; the theorems are about what was written before.
SOURCE: server.c:83-159, 333-344 -/
inductive ShutdownStep (a : Option ℕ) : Shutdown → Shutdown → Prop
  | event {s : Shutdown} {τ : ServerState} {b : Option ℕ} {lines : List LogEntry}
      (hruns : s.handler ≠ []) (hb : b ≠ a) (hstep : EventStep s.server b lines τ) :
      ShutdownStep a s
        { s with
          log := s.log ++ (if fileIsOpen s.handler then lines else []).map (Prod.mk b)
          server := τ }
  | other {s : Shutdown} {τ : ServerState} (hruns : s.handler ≠ [])
      (hstep : ServerStep s.server τ) (hother : ∀ b lines, ¬ EventStep s.server b lines τ)
      (hstays : StaysAt s.server τ a) : ShutdownStep a s { s with server := τ }
  | handler {s : Shutdown} {event : HandlerEvent} {events : List HandlerEvent} {shared : Shared}
      (hhandler : s.handler = event :: events)
      (hperform : s.server.shared.performHandler event = some shared) :
      ShutdownStep a s
        { log := s.log ++ (handlerLines s.server.shared event).map (Prod.mk a)
          server := { s.server with shared := shared }
          handler := events }

/-- Any number of turns after a signal has reached the agent. -/
def ShutdownRun (a : Option ℕ) : Shutdown → Shutdown → Prop :=
  Relation.ReflTransGen (ShutdownStep a)

/-! ## The handler -/

section Handler

variable {event : HandlerEvent} {events : List HandlerEvent}

/-- INTERNAL: the events of the handler, one by one.
SOURCE: server.c:83-159 -/
theorem handler_cases (h : event :: events <:+ sigHandler) :
    (event = .lock .logFile ∧ handlerHolds (event :: events) = false ∧
        handlerHolds events = true ∧ fileIsOpen events = true) ∨
      (event = .unlock .logFile ∧ handlerHolds (event :: events) = true ∧
        handlerHolds events = false ∧ fileIsOpen events = false) ∨
      ((∀ shared : Shared, shared.performHandler event = some shared) ∧
        handlerHolds events = handlerHolds (event :: events) ∧
        (fileIsOpen events = true → fileIsOpen (event :: events) = true)) := by
  simp only [sigHandler, List.suffix_cons_iff, List.cons.injEq, List.suffix_nil, reduceCtorEq,
    or_false] at h
  rcases h with h | h | h | h | h | h | h | h | h | h | h | h
  case inr.inl =>
    obtain ⟨rfl, rfl⟩ := h
    exact Or.inl ⟨rfl, rfl, rfl, rfl⟩
  case inr.inr.inr.inr.inr.inr.inr.inr.inr.inr.inl =>
    obtain ⟨rfl, rfl⟩ := h
    exact Or.inr (Or.inl ⟨rfl, rfl, rfl, rfl⟩)
  all_goals
    obtain ⟨rfl, rfl⟩ := h
    exact Or.inr (Or.inr ⟨fun _ => rfl, rfl, fun hopen => by first | rfl | exact hopen⟩)

/-- INTERNAL: the handler writes to the log file while it holds its mutex, and its statistics are
those of that moment.
SOURCE: server.c:91-131 -/
theorem handler_lines (h : event :: events <:+ sigHandler) {shared : Shared} {entry : LogEntry}
    (hentry : entry ∈ handlerLines shared event) :
    handlerLines shared event = [entry] ∧ handlerHolds (event :: events) = true ∧
      fileIsOpen (event :: events) = true ∧ connections [entry] = 0 ∧ successes [entry] = 0 ∧
      (∀ count, entry = .handler (.clientsConnected count) → count = shared.clientsCount) ∧
      ∀ count, entry = .handler (.clientsWon count) → count = shared.clientsWinCount := by
  simp only [sigHandler, List.suffix_cons_iff, List.cons.injEq, List.suffix_nil, reduceCtorEq,
    or_false] at h
  rcases h with h | h | h | h | h | h | h | h | h | h | h | h
  all_goals
    obtain ⟨rfl, rfl⟩ := h
    simp [handlerLines] at hentry
  all_goals
    subst hentry
    refine ⟨rfl, rfl, rfl, rfl, rfl, ?_, ?_⟩ <;> simp +contextual

end Handler

/-! ## The agents -/

/-- The next thing that is done with the mutex is to unlock it. -/
def holdsMutex (mutex : Mutex) : List MainEvent → Bool
  | [] => false
  | .act (.lock m) :: events => if m = mutex then false else holdsMutex mutex events
  | .act (.unlock m) :: events => if m = mutex then true else holdsMutex mutex events
  | _ :: events => holdsMutex mutex events

/-- INTERNAL: the mutexes that are held are those that will be unlocked. -/
theorem holdsMutex_iff {whole : List LogEntry → Bool} {events : List MainEvent} {c : Section}
    (h : events.foldlM (Section.enterMain whole) c = some .outside) (mutex : Mutex) :
    holdsMutex mutex events = true ↔ mutex ∈ c.held := by
  induction events generalizing c with
  | nil =>
    obtain rfl : c = .outside := Option.some.inj h
    simp [holdsMutex, Section.outside]
  | cons event events ih =>
    obtain ⟨c', henter, hrest⟩ := Option.bind_eq_some_iff.mp h
    have hsilent : c'.held = c.held → holdsMutex mutex (event :: events) = holdsMutex mutex events →
        (holdsMutex mutex (event :: events) = true ↔ mutex ∈ c.held) := by
      intro hheld hholds
      rw [hholds, ih hrest, hheld]
    cases event with
    | free =>
      obtain rfl := Option.some.inj henter
      exact hsilent rfl rfl
    | log line =>
      simp only [Section.enterMain, Option.ite_none_right_eq_some, Option.some.injEq] at henter
      exact hsilent (by rw [← henter.2]) rfl
    | act event =>
      cases event with
      | lock m =>
        simp only [Section.enterMain, Section.enter, Option.ite_none_right_eq_some,
          Option.some.injEq] at henter
        obtain ⟨hrank, rfl⟩ := henter
        by_cases hm : m = mutex
        · subst hm
          have hfree : m ∉ c.held := fun hmem => absurd (hrank m hmem) (lt_irrefl _)
          simp [holdsMutex, hfree]
        · have hnext := ih hrest
          simp only [holdsMutex, if_neg hm]
          rw [hnext]
          simp [Ne.symm hm]
      | unlock m =>
        simp only [Section.enterMain, Section.enter, Option.ite_none_right_eq_some,
          Option.some.injEq] at henter
        obtain ⟨⟨hmem, -⟩, rfl⟩ := henter
        by_cases hm : m = mutex
        · subst hm
          simp [holdsMutex, hmem]
        · have hnext := ih hrest
          simp only [holdsMutex, if_neg hm]
          rw [hnext]
          simp [Ne.symm hm]
      | log line =>
        simp only [Section.enterMain, Section.enter, Option.ite_none_right_eq_some,
          Option.some.injEq] at henter
        exact hsilent (by rw [← henter.2]) rfl
      | count counter change =>
        cases counter <;>
          simp only [Section.enterMain, Section.enter, Option.ite_none_right_eq_some,
            Option.some.injEq] at henter
        · exact hsilent (by rw [henter.2]) rfl
        · exact hsilent (by rw [← henter.2]) rfl
        · exact hsilent (by rw [← henter.2]) rfl
      | _ =>
        obtain rfl := Option.some.inj henter
        exact hsilent rfl rfl

/-- INTERNAL: the same for what an agent has to go. -/
theorem AgentLaws.holds_iff {sec : Option ℕ → Section} {σ : ServerState} (h : AgentLaws sec σ)
    (a : Option ℕ) (mutex : Mutex) :
    holdsMutex mutex (remaining σ a) = true ↔ mutex ∈ (sec a).held := by
  obtain ⟨whole, -, hgo⟩ := h.leadsOut a
  exact holdsMutex_iff hgo mutex

section Runs

variable {a : Option ℕ} {log : List (Option ℕ × LogEntry)} {σ : ServerState} {s : Shutdown}

/-- INTERNAL: what the handler has to go is the rest of `sig_handler`. -/
theorem suffix_of_run (h : ShutdownRun a (Shutdown.signal log σ) s) : s.handler <:+ sigHandler := by
  induction h with
  | refl => exact List.suffix_rfl
  | tail _ hstep ih =>
    cases hstep with
    | event => exact ih
    | other => exact ih
    | handler hhandler =>
      rw [hhandler] at ih
      exact (List.suffix_cons _ _).trans ih

/-- INTERNAL: the agent that the signal has reached stays where it is. -/
theorem remaining_of_run (h : ShutdownRun a (Shutdown.signal log σ) s) :
    remaining s.server a = remaining σ a := by
  induction h with
  | refl => rfl
  | @tail s t _ hstep ih =>
    cases hstep with
    | event _ hb hstep =>
      obtain ⟨_, -, -, -, hothers⟩ := hstep.takesOne
      exact (hothers a (Ne.symm hb)).trans ih
    | @other τ _ _ _ hstays =>
      rw [← ih]
      cases a with
      | none => exact congrArg pendingMain hstays
      | some i =>
        simp only [remaining, show τ.threads[i]? = s.server.threads[i]? from hstays]
    | handler => exact ih

end Runs

/-! ## The laws -/

/-- The shared variables without the mutex of the log file among those that are held. -/
def withoutLogFile (shared : Shared) : Shared :=
  { shared with held := shared.held.filter (· ≠ .logFile) }

/-- What the agents hold of the shared variables while the handler has these events to go. -/
def forAgents (events : List HandlerEvent) (shared : Shared) : Shared :=
  if handlerHolds events then withoutLogFile shared else shared

/-- INTERNAL: while the mutex of the log file is locked, an event that does not unlock it happens
in the same way without it. -/
theorem perform_withoutLogFile {shared shared' : Shared} {event : MainEvent}
    (hevent : event ≠ .act (.unlock .logFile)) (hlocked : .logFile ∈ shared.held)
    (h : shared.performMain event = some shared') :
    (withoutLogFile shared).performMain event = some (withoutLogFile shared') ∧
      .logFile ∈ shared'.held := by
  cases event with
  | act event =>
    cases event with
    | lock mutex =>
      simp only [Shared.performMain, Shared.perform, Option.ite_none_left_eq_some,
        Option.some.injEq] at h
      obtain ⟨hfree, rfl⟩ := h
      have hlog : mutex ≠ .logFile := by
        rintro rfl
        exact hfree hlocked
      refine ⟨?_, List.mem_cons_of_mem _ hlocked⟩
      simp [Shared.performMain, Shared.perform, withoutLogFile, hfree, hlog]
    | unlock mutex =>
      cases h
      have hlog : mutex ≠ .logFile := by
        rintro rfl
        exact hevent rfl
      constructor
      · simp only [Shared.performMain, Shared.perform, withoutLogFile, List.filter_filter,
          Bool.and_comm]
      · simp [hlocked, Ne.symm hlog]
    | count counter change =>
      cases counter <;>
      · cases h
        exact ⟨rfl, hlocked⟩
    | _ =>
      cases h
      exact ⟨rfl, hlocked⟩
  | _ =>
    cases h
    exact ⟨rfl, hlocked⟩

/-- What holds after a signal; `agentLog` is what the agents have written. -/
structure ShutdownLaws (sec : Option ℕ → Section) (agentLog log : List (Option ℕ × LogEntry))
    (σ : ServerState) (events : List HandlerEvent) : Prop where
  agents : AgentLaws sec σ
  shared : SharedLaws (WholeBlock σ.threads) sec (forAgents events σ.shared) agentLog
  locked : handlerHolds events = true → .logFile ∈ σ.shared.held
  clients : Balanced clientsChange (fun shared _ => shared.clientsCount) σ agentLog
  wins : Balanced winsChange (fun shared _ => shared.clientsWinCount) σ agentLog
  successes : Balanced successLine (fun _ lines => successes lines) σ agentLog
  file : fileIsOpen events = true →
    connections (log.map Prod.snd) = connections (agentLog.map Prod.snd) ∧
      Interface.successes (log.map Prod.snd) = Interface.successes (agentLog.map Prod.snd)

section Laws

variable {sec : Option ℕ → Section} {agentLog log : List (Option ℕ × LogEntry)} {σ τ : ServerState}
  {events : List HandlerEvent}

/-- INTERNAL: an account is balanced in every run. -/
theorem balanced_of_log {w : ServerEvent → ℤ} {q : Shared → List LogEntry → ℤ}
    {argument : Option (List UInt8)} (haccount : Account w q) (hstart : q ⟨0, 0, 0, []⟩ [] = 0)
    (h : ServerLog argument log σ) : Balanced w q σ log := by
  induction h with
  | start => exact hstart
  | event h hstep ih =>
    obtain ⟨sec, hlaws⟩ := lockLaws_of_log h
    exact ih.event haccount hlaws.agents hstep
  | other h hstep hother ih =>
    obtain ⟨sec, hlaws⟩ := lockLaws_of_log h
    exact ih.other hlaws.agents hstep hother

/-- INTERNAL: the signal comes. -/
theorem ShutdownLaws.signal {argument : Option (List UInt8)} (h : ServerLog argument log σ) :
    ∃ sec, ShutdownLaws sec log log σ sigHandler := by
  obtain ⟨sec, hlaws⟩ := lockLaws_of_log h
  exact ⟨sec, hlaws.agents, hlaws.shared, fun hholds => (by cases hholds),
    balanced_of_log account_clients rfl h, balanced_of_log account_wins rfl h,
    balanced_of_log account_successes rfl h, fun _ => ⟨rfl, rfl⟩⟩

/-- INTERNAL: an agent performs an event.
SOURCE: server.c:161-257, 411-474, 483-623 -/
theorem ShutdownLaws.event (h : ShutdownLaws sec agentLog log σ events) {b : Option ℕ}
    {lines : List LogEntry} (hstep : EventStep σ b lines τ) :
    ∃ sec' agentLog', ShutdownLaws sec' agentLog'
      (log ++ (if fileIsOpen events then lines else []).map (Prod.mk b)) τ events := by
  obtain ⟨sec', event, whole, hagents, hothers, henter, hwhole, hperform, rfl⟩ :=
    h.agents.event hstep
  have hagain : (forAgents events σ.shared).performMain event = some (forAgents events τ.shared) ∧
      (handlerHolds events = true → .logFile ∈ τ.shared.held) := by
    unfold forAgents
    split_ifs with hholds
    · have hevent : event ≠ .act (.unlock .logFile) := by
        rintro rfl
        simp only [Section.enterMain, Section.enter, Option.ite_none_right_eq_some] at henter
        have hmem := (h.shared.owned.mem_iff .logFile).mpr ⟨b, henter.1.1⟩
        simp [forAgents, hholds, withoutLogFile] at hmem
      obtain ⟨hsame, hlocked⟩ := perform_withoutLogFile hevent (h.locked hholds) hperform
      exact ⟨hsame, fun _ => hlocked⟩
    · exact ⟨hperform, fun hcontra => absurd hcontra hholds⟩
  refine ⟨sec', agentLog ++ (mainLines event).map (Prod.mk b), hagents,
    (h.shared.eventMain henter hothers hwhole hagain.1).mono
      (wholeBlock_step hstep.serverStep h.agents), hagain.2,
    h.clients.event account_clients h.agents hstep, h.wins.event account_wins h.agents hstep,
    h.successes.event account_successes h.agents hstep, fun hopen => ?_⟩
  obtain ⟨hconnections, hsuccesses⟩ := h.file hopen
  rw [if_pos hopen, List.map_append, List.map_append, connections_append, connections_append,
    successes_append, successes_append, hconnections, hsuccesses]
  exact ⟨rfl, rfl⟩

/-- INTERNAL: a turn of the server that is no event.
SOURCE: server.c:411-474, 543-581 -/
theorem ShutdownLaws.other (h : ShutdownLaws sec agentLog log σ events) (hstep : ServerStep σ τ)
    (hother : ∀ b lines, ¬ EventStep σ b lines τ) : ShutdownLaws sec agentLog log τ events := by
  obtain ⟨hagents, hshared⟩ := h.agents.other hstep hother
  refine ⟨hagents, ?_, ?_, h.clients.other h.agents hstep hother,
    h.wins.other h.agents hstep hother, h.successes.other h.agents hstep hother, h.file⟩
  · rw [hshared]
    exact h.shared.mono (wholeBlock_step hstep h.agents)
  · rw [hshared]
    exact h.locked

/-- INTERNAL: the handler goes on.
SOURCE: server.c:83-159 -/
theorem ShutdownLaws.handler {a : Option ℕ} {event : HandlerEvent} {shared : Shared}
    (h : ShutdownLaws sec agentLog log σ (event :: events)) (hsuffix : event :: events <:+ sigHandler)
    (hperform : σ.shared.performHandler event = some shared) :
    ShutdownLaws sec agentLog (log ++ (handlerLines σ.shared event).map (Prod.mk a))
      { σ with shared := shared } events := by
  have hfile : fileIsOpen (event :: events) = true →
      connections ((log ++ (handlerLines σ.shared event).map (Prod.mk a)).map Prod.snd) =
          connections (agentLog.map Prod.snd) ∧
        Interface.successes ((log ++ (handlerLines σ.shared event).map (Prod.mk a)).map Prod.snd) =
          Interface.successes (agentLog.map Prod.snd) := by
    intro hopen
    rw [List.map_append, connections_append, successes_append, (h.file hopen).1, (h.file hopen).2]
    cases hlines : handlerLines σ.shared event with
    | nil => exact ⟨rfl, rfl⟩
    | cons entry rest =>
      have hentry : entry ∈ handlerLines σ.shared event := by
        rw [hlines]
        exact List.mem_cons_self
      obtain ⟨hone, -, -, hconnections, hsuccesses, -⟩ := handler_lines hsuffix hentry
      rw [← hlines, hone]
      constructor
      · show _ + connections [entry] = _
        rw [hconnections, Nat.add_zero]
      · show _ + Interface.successes [entry] = _
        rw [hsuccesses, Nat.add_zero]
  rcases handler_cases hsuffix with ⟨rfl, hbefore, hafter, hopen⟩ | ⟨rfl, hbefore, hafter, hopen⟩ |
    ⟨hsame, hafter, hopen⟩
  · simp only [Shared.performHandler, Shared.perform, Option.ite_none_left_eq_some,
      Option.some.injEq] at hperform
    obtain ⟨hfree, rfl⟩ := hperform
    refine ⟨⟨h.agents.thread, h.agents.absent, h.agents.main, h.agents.quiet⟩, ?_,
      fun _ => List.mem_cons_self, h.clients, h.wins, h.successes,
      fun _ => hfile (by simpa [fileIsOpen] using hopen)⟩
    have hshared : forAgents events { σ.shared with held := .logFile :: σ.shared.held } =
        forAgents (.lock .logFile :: events) σ.shared := by
      unfold forAgents
      rw [if_pos hafter, hbefore]
      have hfilter : σ.shared.held.filter (· ≠ .logFile) = σ.shared.held := by
        rw [List.filter_eq_self]
        rintro m hm
        rw [decide_eq_true_eq]
        rintro rfl
        exact hfree hm
      simp only [withoutLogFile, List.filter_cons, hfilter]
      rfl
    show SharedLaws _ _ (forAgents events _) _
    rw [hshared]
    exact h.shared
  · cases hperform
    refine ⟨⟨h.agents.thread, h.agents.absent, h.agents.main, h.agents.quiet⟩, ?_,
      fun hholds => (by rw [hafter] at hholds; cases hholds), h.clients, h.wins, h.successes,
      fun hcontra => (by rw [hopen] at hcontra; cases hcontra)⟩
    have hshared := h.shared
    unfold forAgents at hshared ⊢
    rw [if_pos hbefore] at hshared
    rw [hafter]
    exact hshared
  · obtain rfl : σ.shared = shared := Option.some.inj ((hsame _).symm.trans hperform)
    have hshared := h.shared
    unfold forAgents at hshared
    rw [← hafter] at hshared
    refine ⟨⟨h.agents.thread, h.agents.absent, h.agents.main, h.agents.quiet⟩, hshared,
      fun hholds => h.locked (by rw [← hafter, hholds]), h.clients, h.wins, h.successes,
      fun hstill => hfile (hopen hstill)⟩

end Laws

/-- The laws hold in every state after a signal. -/
theorem shutdownLaws_of_run {argument : Option (List UInt8)} {a : Option ℕ}
    {log : List (Option ℕ × LogEntry)} {σ : ServerState} {s : Shutdown}
    (h : ServerLog argument log σ) (hrun : ShutdownRun a (Shutdown.signal log σ) s) :
    ∃ sec agentLog, ShutdownLaws sec agentLog s.log s.server s.handler := by
  induction hrun with
  | refl =>
    obtain ⟨sec, hlaws⟩ := ShutdownLaws.signal h
    exact ⟨sec, log, hlaws⟩
  | tail hrun hstep ih =>
    obtain ⟨sec, agentLog, hlaws⟩ := ih
    cases hstep with
    | event _ _ hstep => exact hlaws.event hstep
    | other _ hstep hother => exact ⟨sec, agentLog, hlaws.other hstep hother⟩
    | handler hhandler hperform =>
      have hsuffix := suffix_of_run hrun
      rw [hhandler] at hlaws hsuffix
      exact ⟨sec, agentLog, hlaws.handler hsuffix hperform⟩

end Comp30023.Interface
