import Comp30023.Interface.CriticalSections
import Comp30023.Interface.SessionThreads
import Comp30023.Library.Mutexes
import Comp30023.Library.Threads

/-!
# The mutexes of the server and its log file

The agents of the server are `main`, written `none`, and the session threads by their numbers.
`ServerLog` pairs the states of a run with the lines that were written to the log file so far.
`LockLaws` says of every such pair what the critical section of each agent is, that the mutexes
that are locked are those the agents hold in them, and that the log file consists of whole blocks
of lines, up to what the agent that holds its mutex is about to complete.
-/

set_option autoImplicit false

namespace Comp30023.Interface

open Comp30023.Library Comp30023.Model

/-! ## Runs with their log -/

/-- What an event writes to the log file. -/
def eventLines : ServerEvent → List LogEntry
  | .log line => [.session line]
  | _ => []

def mainLines : MainEvent → List LogEntry
  | .act event => eventLines event
  | .log line => [.main line]
  | .free => []

/-- The agent performs its next event, and writes these lines. -/
inductive EventStep : ServerState → Option ℕ → List LogEntry → ServerState → Prop
  | thread {σ : ServerState} {i : ℕ} {thread : SessionThread} {event : ServerEvent}
      {shared : Shared} (hthread : σ.threads[i]? = some thread)
      (hevent : thread.session.conn.trace[thread.performed]? = some event)
      (hperform : σ.shared.perform event = some shared) :
      EventStep σ (some i) (eventLines event)
        { σ with shared := shared, threads := σ.threads.set i thread.next }
  | main {σ : ServerState} {event : MainEvent} {events : List MainEvent} {comesBack : Bool}
      {shared : Shared} (hmain : σ.main = .finishing (event :: events) comesBack)
      (hperform : σ.shared.performMain event = some shared) :
      EventStep σ none (mainLines event)
        { σ with shared := shared, main := .finishing events comesBack }

/-- An event is a turn of the server. -/
theorem EventStep.serverStep {σ τ : ServerState} {a : Option ℕ} {lines : List LogEntry}
    (h : EventStep σ a lines τ) : ServerStep σ τ := by
  cases h with
  | thread hthread hevent hperform => exact .threadEvent hthread hevent hperform
  | main hmain hperform => exact .mainEvent hmain hperform

/-- A state the server can come to, with what is in the log file then. -/
inductive ServerLog (argument : Option (List UInt8)) :
    List (Option ℕ × LogEntry) → ServerState → Prop
  | start : ServerLog argument [] (ServerState.initial argument)
  | event {log : List (Option ℕ × LogEntry)} {σ τ : ServerState} {a : Option ℕ}
      {lines : List LogEntry} (h : ServerLog argument log σ) (hstep : EventStep σ a lines τ) :
      ServerLog argument (log ++ lines.map (Prod.mk a)) τ
  | other {log : List (Option ℕ × LogEntry)} {σ τ : ServerState} (h : ServerLog argument log σ)
      (hstep : ServerStep σ τ) (hother : ∀ a lines, ¬ EventStep σ a lines τ) :
      ServerLog argument log τ

/-- The states with a log are those the server can come to. -/
theorem exists_serverLog {argument : Option (List UInt8)} {σ : ServerState} :
    (∃ log, ServerLog argument log σ) ↔
      Relation.ReflTransGen ServerStep (ServerState.initial argument) σ := by
  constructor
  · rintro ⟨log, h⟩
    induction h with
    | start => exact .refl
    | event _ hstep ih => exact ih.tail hstep.serverStep
    | other _ hstep _ ih => exact ih.tail hstep
  · intro h
    induction h with
    | refl => exact ⟨[], .start⟩
    | @tail σ τ _ hstep ih =>
      obtain ⟨log, hlog⟩ := ih
      by_cases hevent : ∃ a lines, EventStep σ a lines τ
      · obtain ⟨a, lines, hevent⟩ := hevent
        exact ⟨_, hlog.event hevent⟩
      · push Not at hevent
        exact ⟨log, hlog.other hstep hevent⟩

/-! ## The laws -/

/-- The events `main` has to go before it comes back to the top of its loop. -/
def pendingMain : MainPoint → List MainEvent
  | .finishing events _ => events
  | _ => []

/-- The lines belong together, when this agent has written them. -/
def WholeBlock (threads : List SessionThread) (a : Option ℕ) (block : List LogEntry) : Prop :=
  match a with
  | none => mainBlock block = true
  | some i => ∃ thread, threads[i]? = some thread ∧
      sessionBlock thread.session.secretCode block = true

/-- A session thread in its critical section `c`. -/
structure ThreadIn (thread : SessionThread) (c : Section) : Prop where
  orderly : ThreadWith (Orderly thread.session.secretCode) (Orderly thread.session.secretCode)
    thread
  section_ : thread.done.foldlM (Section.enter (sessionBlock thread.session.secretCode)) .outside =
    some c

/-- What the critical sections of the agents mean for the mutexes, for the log file, and for the
number of clients: when the mutex of the log file is free, that is the number of lines in the log
file that tell of a new client. -/
structure SharedLaws (whole : Option ℕ → List LogEntry → Prop) (sec : Option ℕ → Section)
    (shared : Shared) (log : List (Option ℕ × LogEntry)) : Prop where
  owned : Owned shared.held fun a => (sec a).held
  journal : Journal whole .logFile shared.held (fun a => (sec a).held) (fun a => (sec a).block) log
  counted : Guarded .logFile shared.held (fun a => (sec a).held)
    (shared.clientsCount = connections (log.map Prod.snd))
    fun a => shared.clientsCount + connections (sec a).block =
      connections (log.map Prod.snd) + (sec a).connected

/-- The critical sections that the agents are in, by what they have done and have to go. -/
structure AgentLaws (sec : Option ℕ → Section) (σ : ServerState) : Prop where
  thread : ∀ i thread, σ.threads[i]? = some thread → ThreadIn thread (sec (some i))
  absent : ∀ i, σ.threads[i]? = none → sec (some i) = .outside
  main : (pendingMain σ.main).foldlM (Section.enterMain mainBlock) (sec none) = some .outside
  quiet : ∀ event ∈ pendingMain σ.main, isQuiet event = true

/-- The laws of the mutexes. -/
structure LockLaws (sec : Option ℕ → Section) (σ : ServerState)
    (log : List (Option ℕ × LogEntry)) : Prop where
  agents : AgentLaws sec σ
  shared : SharedLaws (WholeBlock σ.threads) sec σ.shared log

theorem lockLaws_initial (argument : Option (List UInt8)) :
    LockLaws (fun _ => .outside) (ServerState.initial argument) [] := by
  refine ⟨⟨fun i thread h => ?_, fun _ _ => rfl, rfl, fun event h => ?_⟩, ⟨owned_nil, journal_nil,
    ⟨fun _ => rfl, fun _ h => ?_⟩⟩⟩
  · simp [ServerState.initial] at h
  · simp [ServerState.initial, pendingMain] at h
  · simp [Section.outside] at h

/-! ## One event -/

section Events

variable {sec sec' : Option ℕ → Section} {a : Option ℕ} {shared shared' : Shared}
  {log : List (Option ℕ × LogEntry)}
  {whole whole' : Option ℕ → List LogEntry → Prop} {wholeHere : List LogEntry → Bool}

/-- INTERNAL: more blocks count as whole. -/
theorem SharedLaws.mono (h : SharedLaws whole sec shared log)
    (hwhole : ∀ a block, whole a block → whole' a block) : SharedLaws whole' sec shared log :=
  ⟨h.owned, h.journal.mono hwhole, h.counted⟩

/-- INTERNAL: nothing happens to what the laws speak of. -/
theorem SharedLaws.same (h : SharedLaws whole sec shared log) (hheld : shared'.held = shared.held)
    (hcount : shared'.clientsCount = shared.clientsCount)
    (hsec : ∀ b, (sec' b).held = (sec b).held ∧ (sec' b).block = (sec b).block ∧
      (sec' b).connected = (sec b).connected) :
    SharedLaws whole sec' shared' log := by
  constructor
  · rw [hheld]
    exact h.owned.congr fun b => (hsec b).1
  · rw [hheld]
    exact h.journal.congr Iff.rfl (fun b => by rw [(hsec b).1]) fun b _ => (hsec b).2.1
  · rw [hheld, hcount]
    refine h.counted.congr Iff.rfl (fun b => by rw [(hsec b).1]) id fun b _ hcounted => ?_
    rw [(hsec b).2.1, (hsec b).2.2]
    exact hcounted

/-- INTERNAL: a line is written to the log file.
SOURCE: server.c:216-252, 438-445, 460-467, 504-525, 555-568, 587-606, 613-618 -/
theorem SharedLaws.write (h : SharedLaws whole sec shared log) {entry : LogEntry}
    (hmem : .logFile ∈ (sec a).held) (hheld : (sec' a).held = (sec a).held)
    (hblock : (sec' a).block = (sec a).block ++ [entry])
    (hconnected : (sec' a).connected = (sec a).connected) (hothers : ∀ b, b ≠ a → sec' b = sec b) :
    SharedLaws whole sec' shared (log ++ [(a, entry)]) := by
  have hall : (fun b => (sec' b).held) = fun b => (sec b).held := by
    funext b
    by_cases hb : b = a
    · rw [hb, hheld]
    · rw [hothers b hb]
  constructor
  · rw [hall]
    exact h.owned
  · rw [hall]
    show Journal whole .logFile shared.held (fun b => (sec b).held) (fun b => (sec' b).block)
      (log ++ [entry].map (Prod.mk a))
    exact h.journal.write h.owned hmem hblock
  · rw [hall]
    refine h.counted.write h.owned hmem fun hcounted => ?_
    rw [hblock, hconnected, List.map_append, connections_append, connections_append]
    push_cast
    show shared.clientsCount + (connections (sec a).block + connections [entry] : ℤ) =
      connections (log.map Prod.snd) + (connections [entry] : ℤ) + (sec a).connected
    omega

/-- An event that the agent may perform in its critical section, and that does not have to wait,
keeps the laws.
SOURCE: server.c:161-257 -/
theorem SharedLaws.event {event : ServerEvent} (h : SharedLaws whole sec shared log)
    (henter : (sec a).enter wholeHere event = some (sec' a))
    (hothers : ∀ b, b ≠ a → sec' b = sec b)
    (hwhole : ∀ block, wholeHere block = true → whole a block)
    (hperform : shared.perform event = some shared') :
    SharedLaws whole sec' shared' (log ++ (eventLines event).map (Prod.mk a)) := by
  have hheld : ∀ b, b ≠ a → (sec' b).held = (sec b).held := fun b hb => by rw [hothers b hb]
  -- an event of which the laws say nothing
  have hsilent : shared'.held = shared.held → shared'.clientsCount = shared.clientsCount →
      (sec' a).held = (sec a).held ∧ (sec' a).block = (sec a).block ∧
        (sec' a).connected = (sec a).connected → eventLines event = [] →
      SharedLaws whole sec' shared' (log ++ (eventLines event).map (Prod.mk a)) := by
    intro hshared hcount hself hlines
    rw [hlines, List.map_nil, List.append_nil]
    refine h.same hshared hcount fun b => ?_
    by_cases hb : b = a
    · rw [hb]
      exact hself
    · rw [hothers b hb]
      exact ⟨rfl, rfl, rfl⟩
  cases event with
  | lock mutex =>
    simp only [Shared.perform, Option.ite_none_left_eq_some, Option.some.injEq] at hperform
    obtain ⟨hfree, rfl⟩ := hperform
    simp only [Section.enter, Option.ite_none_right_eq_some, Option.some.injEq] at henter
    obtain ⟨-, hnew⟩ := henter
    have hself : (sec' a).held = mutex :: (sec a).held := by rw [← hnew]
    rw [show eventLines (.lock mutex) = [] from rfl, List.map_nil, List.append_nil]
    by_cases hlog : mutex = .logFile
    · subst hlog
      rw [if_pos rfl, if_pos rfl] at hnew
      refine ⟨h.owned.lock hfree hself hheld, ?_, ?_⟩
      · exact h.journal.lock h.owned hfree hheld (by rw [← hnew]) List.mem_cons_self
      · refine h.counted.lock h.owned hfree hheld (fun hcounted => ?_) List.mem_cons_self
        rw [← hnew, hcounted]
        rfl
    · rw [if_neg hlog, if_neg hlog] at hnew
      have hblock : ∀ b, (sec' b).block = (sec b).block ∧ (sec' b).connected = (sec b).connected := by
        intro b
        by_cases hb : b = a
        · rw [hb, ← hnew]
          exact ⟨rfl, rfl⟩
        · rw [hothers b hb]
          exact ⟨rfl, rfl⟩
      have hmem : ∀ b, .logFile ∈ (sec' b).held ↔ .logFile ∈ (sec b).held := by
        intro b
        by_cases hb : b = a
        · rw [hb, hself]
          simp [Ne.symm hlog]
        · rw [hheld b hb]
      refine ⟨h.owned.lock hfree hself hheld, ?_, ?_⟩
      · exact h.journal.congr (by simp [Ne.symm hlog]) hmem fun b _ => (hblock b).1
      · refine h.counted.congr (by simp [Ne.symm hlog]) hmem id fun b _ hcounted => ?_
        rw [(hblock b).1, (hblock b).2]
        exact hcounted
  | unlock mutex =>
    cases hperform
    simp only [Section.enter, Option.ite_none_right_eq_some, Option.some.injEq] at henter
    obtain ⟨⟨hmem, hdone⟩, hnew⟩ := henter
    have hself : (sec' a).held = (sec a).held.filter (· ≠ mutex) := by rw [← hnew]
    rw [show eventLines (.unlock mutex) = [] from rfl, List.map_nil, List.append_nil]
    by_cases hlog : mutex = .logFile
    · subst hlog
      have hleaves : .logFile ∉ (sec' a).held := by
        rw [hself]
        simp
      refine ⟨h.owned.unlock hmem hself hheld, ?_, ?_⟩
      · exact h.journal.unlock h.owned hmem (hwhole _ (hdone rfl).1) hleaves hheld
      · refine h.counted.unlock h.owned hmem hleaves hheld fun hcounted => ?_
        have hsame := (hdone rfl).2
        show shared.clientsCount = _
        omega
    · rw [if_neg hlog, if_neg hlog] at hnew
      have hblock : ∀ b, (sec' b).block = (sec b).block ∧ (sec' b).connected = (sec b).connected := by
        intro b
        by_cases hb : b = a
        · rw [hb, ← hnew]
          exact ⟨rfl, rfl⟩
        · rw [hothers b hb]
          exact ⟨rfl, rfl⟩
      have hstays : ∀ b, .logFile ∈ (sec' b).held ↔ .logFile ∈ (sec b).held := by
        intro b
        by_cases hb : b = a
        · rw [hb, hself]
          simp [Ne.symm hlog]
        · rw [hheld b hb]
      refine ⟨h.owned.unlock hmem hself hheld, ?_, ?_⟩
      · exact h.journal.congr (by simp [Ne.symm hlog]) hstays fun b _ => (hblock b).1
      · refine h.counted.congr (by simp [Ne.symm hlog]) hstays id fun b _ hcounted => ?_
        rw [(hblock b).1, (hblock b).2]
        exact hcounted
  | log line =>
    cases hperform
    simp only [Section.enter, Option.ite_none_right_eq_some, Option.some.injEq] at henter
    obtain ⟨⟨hmem, -⟩, hnew⟩ := henter
    exact h.write hmem (by rw [← hnew]) (by rw [← hnew]) (by rw [← hnew]) hothers
  | count counter change =>
    cases counter with
    | clientsNowCount =>
      cases hperform
      simp only [Section.enter, Option.ite_none_right_eq_some, Option.some.injEq] at henter
      exact hsilent rfl rfl (by rw [henter.2]; exact ⟨rfl, rfl, rfl⟩) rfl
    | clientsWinCount =>
      cases hperform
      simp only [Section.enter, Option.ite_none_right_eq_some, Option.some.injEq] at henter
      exact hsilent rfl rfl (by rw [← henter.2]; exact ⟨rfl, rfl, rfl⟩) rfl
    | clientsCount =>
      cases hperform
      simp only [Section.enter, Option.ite_none_right_eq_some, Option.some.injEq] at henter
      obtain ⟨⟨-, hmem⟩, hnew⟩ := henter
      have hall : (fun b => (sec' b).held) = fun b => (sec b).held := by
        funext b
        by_cases hb : b = a
        · rw [hb, ← hnew]
        · rw [hothers b hb]
      have hblock : ∀ b, (sec' b).block = (sec b).block := by
        intro b
        by_cases hb : b = a
        · rw [hb, ← hnew]
        · rw [hothers b hb]
      rw [show eventLines (.count .clientsCount change) = [] from rfl, List.map_nil, List.append_nil]
      constructor
      · rw [hall]
        exact h.owned
      · rw [hall]
        exact h.journal.congr Iff.rfl (fun _ => Iff.rfl) fun b _ => hblock b
      · rw [hall]
        refine h.counted.write h.owned hmem fun hcounted => ?_
        rw [hblock, ← hnew]
        show shared.clientsCount + change + _ = _ + ((sec a).connected + change)
        omega
  | send msgType msgPayload result =>
    cases hperform
    exact hsilent rfl rfl (by rw [← Option.some.inj henter]; exact ⟨rfl, rfl, rfl⟩) rfl
  | receive stored result =>
    cases hperform
    exact hsilent rfl rfl (by rw [← Option.some.inj henter]; exact ⟨rfl, rfl, rfl⟩) rfl
  | check buffer =>
    cases hperform
    exact hsilent rfl rfl (by rw [← Option.some.inj henter]; exact ⟨rfl, rfl, rfl⟩) rfl
  | close =>
    cases hperform
    exact hsilent rfl rfl (by rw [← Option.some.inj henter]; exact ⟨rfl, rfl, rfl⟩) rfl

/-- INTERNAL: the same for an event of any agent. -/
theorem SharedLaws.eventMain {event : MainEvent} (h : SharedLaws whole sec shared log)
    (henter : (sec a).enterMain wholeHere event = some (sec' a))
    (hothers : ∀ b, b ≠ a → sec' b = sec b)
    (hwhole : ∀ block, wholeHere block = true → whole a block)
    (hperform : shared.performMain event = some shared') :
    SharedLaws whole sec' shared' (log ++ (mainLines event).map (Prod.mk a)) := by
  cases event with
  | act event => exact h.event henter hothers hwhole hperform
  | free =>
    cases hperform
    have hsame : sec' = sec := by
      funext b
      by_cases hb : b = a
      · rw [hb]
        exact (Option.some.inj henter).symm
      · exact hothers b hb
    rw [hsame, show mainLines .free = [] from rfl, List.map_nil, List.append_nil]
    exact h
  | log line =>
    cases hperform
    simp only [Section.enterMain, Option.ite_none_right_eq_some, Option.some.injEq] at henter
    obtain ⟨hmem, hnew⟩ := henter
    exact h.write hmem (by rw [← hnew]) (by rw [← hnew]) (by rw [← hnew]) hothers

end Events

/-! ## The laws hold in every run -/

section Threads

variable {thread : SessionThread} {c : Section}

/-- INTERNAL: the whole trace of a thread leads outside of all critical sections. -/
theorem ThreadIn.trace (h : ThreadIn thread c) :
    thread.session.conn.trace.foldlM (Section.enter (sessionBlock thread.session.secretCode))
      .outside = some .outside := by
  cases hended : thread.isEnded with
  | false => exact (h.orderly.goesOn hended).outside
  | true => exact (h.orderly.ended hended).outside

/-- INTERNAL: the next event of a thread leads on to another critical section. -/
theorem ThreadIn.next (h : ThreadIn thread c) {event : ServerEvent}
    (hevent : thread.session.conn.trace[thread.performed]? = some event) :
    ∃ c', c.enter (sessionBlock thread.session.secretCode) event = some c' ∧
      ThreadIn thread.next c' := by
  have htrace := h.trace
  have hdone : thread.done ++ [event] <+: thread.session.conn.trace := by
    rw [← done_next hevent]
    exact List.take_prefix _ _
  obtain ⟨rest, hrest⟩ := hdone
  rw [← hrest, List.append_assoc, List.foldlM_append, h.section_] at htrace
  have hgoes : (c.enter (sessionBlock thread.session.secretCode) event).bind
      (fun c' => rest.foldlM (Section.enter (sessionBlock thread.session.secretCode)) c') =
        some .outside := htrace
  obtain ⟨c', henter, -⟩ := Option.bind_eq_some_iff.mp hgoes
  refine ⟨c', henter, h.orderly.next hevent, ?_⟩
  rw [done_next hevent, List.foldlM_append]
  show ((thread.done.foldlM (Section.enter (sessionBlock thread.session.secretCode))
    .outside).bind _) = some c'
  rw [h.section_]
  show (c.enter (sessionBlock thread.session.secretCode) event).bind some = some c'
  rw [henter]
  rfl

/-- INTERNAL: a new thread.
SOURCE: server.c:456, 483-538 -/
theorem threadIn_start (input : SessionInput) : ThreadIn (SessionThread.start input) .outside := by
  obtain ⟨hthread, hdone⟩ := threadWith_start (orderly_startSession input)
  have hsecret : (SessionThread.start input).session.secretCode = secretOf input := by
    cases hended : (SessionThread.start input).isEnded with
    | false => exact (hthread.goesOn hended).secret
    | true => exact (hthread.ended hended).secret
  constructor
  · rw [hsecret]
    exact hthread
  · rw [hdone]
    rfl

/-- INTERNAL: a guess is received.
SOURCE: server.c:543-581 -/
theorem ThreadIn.receive (h : ThreadIn thread c) (hgoes : thread.isEnded = false) (r : Received) :
    ThreadIn (thread.receive r) c ∧
      (thread.receive r).session.secretCode = thread.session.secretCode := by
  obtain ⟨hthread, hdone⟩ := ThreadWith.receive h.orderly hgoes
    ((h.orderly.goesOn hgoes).checkGuess r)
  have hsecret : (thread.receive r).session.secretCode = thread.session.secretCode := by
    cases hended : (thread.receive r).isEnded with
    | false => exact (hthread.goesOn hended).secret
    | true => exact (hthread.ended hended).secret
  refine ⟨⟨?_, ?_⟩, hsecret⟩
  · rw [hsecret]
    exact hthread
  · rw [hsecret, hdone]
    exact h.section_

end Threads

section Steps

variable {sec : Option ℕ → Section} {σ τ : ServerState} {log : List (Option ℕ × LogEntry)}

/-- INTERNAL: blocks stay whole when a thread goes on with its secret code. -/
theorem wholeBlock_set {threads : List SessionThread} {i : ℕ} {thread thread' : SessionThread}
    (hthread : threads[i]? = some thread)
    (hsecret : thread'.session.secretCode = thread.session.secretCode) (a : Option ℕ)
    (block : List LogEntry) (h : WholeBlock threads a block) :
    WholeBlock (threads.set i thread') a block := by
  cases a with
  | none => exact h
  | some j =>
    obtain ⟨u, hu, hblock⟩ := h
    by_cases hj : i = j
    · subst hj
      obtain rfl : thread = u := Option.some.inj (hthread.symm.trans hu)
      refine ⟨thread', List.getElem?_set_self (List.getElem?_eq_some_iff.mp hthread).1, ?_⟩
      rw [hsecret]
      exact hblock
    · exact ⟨u, by rw [List.getElem?_set_ne hj, hu], hblock⟩

/-- INTERNAL: blocks stay whole. -/
theorem wholeBlock_step (hsteps : ServerStep σ τ) (hlaws : AgentLaws sec σ) (a : Option ℕ)
    (block : List LogEntry) (h : WholeBlock σ.threads a block) : WholeBlock τ.threads a block := by
  cases hsteps with
  | create hmain =>
    cases a with
    | none => exact h
    | some i =>
      obtain ⟨thread, hthread, hwhole⟩ := h
      refine ⟨thread, ?_, hwhole⟩
      rw [List.getElem?_append_left (List.getElem?_eq_some_iff.mp hthread).1, hthread]
  | @threadEvent i thread event shared hthread hevent hperform =>
    exact wholeBlock_set hthread (show thread.next.session.secretCode = _ from rfl) a block h
  | receive hthread hdone hgoes hreceive =>
    exact wholeBlock_set hthread ((hlaws.thread _ _ hthread).receive hgoes _).2 a block h
  | _ => exact h

/-- An agent performs an event: one that it may perform in its critical section.
SOURCE: server.c:161-257, 411-474, 483-623 -/
theorem AgentLaws.event (h : AgentLaws sec σ) {a : Option ℕ} {lines : List LogEntry}
    (hstep : EventStep σ a lines τ) :
    ∃ sec' event whole, AgentLaws sec' τ ∧ (∀ b, b ≠ a → sec' b = sec b) ∧
      (sec a).enterMain whole event = some (sec' a) ∧
      (∀ block, whole block = true → WholeBlock σ.threads a block) ∧
      σ.shared.performMain event = some τ.shared ∧ lines = mainLines event := by
  cases hstep with
  | @thread i thread event shared hthread hevent hperform =>
    obtain ⟨c', henter, hnext⟩ := (h.thread i thread hthread).next hevent
    have hlt := (List.getElem?_eq_some_iff.mp hthread).1
    have hself : Function.update sec (some i) c' (some i) = c' := Function.update_self ..
    have hothers : ∀ b, b ≠ some i → Function.update sec (some i) c' b = sec b :=
      fun b hb => Function.update_of_ne hb ..
    refine ⟨Function.update sec (some i) c', .act event,
      sessionBlock thread.session.secretCode, ⟨?_, ?_, ?_, h.quiet⟩, hothers,
      henter.trans (congrArg some hself.symm), fun block hblock => ⟨thread, hthread, hblock⟩,
      hperform, rfl⟩
    · intro j u hu
      dsimp only at hu
      by_cases hj : i = j
      · subst hj
        rw [List.getElem?_set_self hlt] at hu
        obtain rfl := Option.some.inj hu
        rw [hself]
        exact hnext
      · rw [List.getElem?_set_ne hj] at hu
        rw [hothers _ (by simpa using Ne.symm hj)]
        exact h.thread j u hu
    · intro j hj
      dsimp only at hj
      rw [List.getElem?_eq_none_iff, List.length_set, ← List.getElem?_eq_none_iff] at hj
      have hne : j ≠ i := by
        rintro rfl
        rw [hthread] at hj
        cases hj
      rw [hothers _ (by simpa using hne)]
      exact h.absent j hj
    · rw [hothers none (by simp)]
      exact h.main
  | @main event events comesBack shared hmain hperform =>
    have hpending := h.main
    rw [hmain] at hpending
    obtain ⟨c', henter, hrest⟩ := Option.bind_eq_some_iff.mp hpending
    have hself : Function.update sec none c' none = c' := Function.update_self ..
    have hothers : ∀ b, b ≠ none → Function.update sec none c' b = sec b :=
      fun b hb => Function.update_of_ne hb ..
    have hquiet := h.quiet
    rw [hmain] at hquiet
    refine ⟨Function.update sec none c', event, mainBlock, ⟨?_, ?_, ?_, ?_⟩, hothers,
      henter.trans (congrArg some hself.symm), fun block hblock => hblock, hperform, rfl⟩
    · intro j u hu
      rw [hothers _ (by simp)]
      exact h.thread j u hu
    · intro j hj
      rw [hothers _ (by simp)]
      exact h.absent j hj
    · rw [hself]
      exact hrest
    · exact fun event hmem => hquiet event (List.mem_cons_of_mem _ hmem)

/-- INTERNAL: `main` goes somewhere else, from where it has no events to go. -/
theorem AgentLaws.moveMain (h : AgentLaws sec σ) (hidle : pendingMain σ.main = [])
    {main : MainPoint} (hmain : OrderlyMain (pendingMain main)) :
    AgentLaws sec { σ with main := main } := by
  have hsec := h.main
  rw [hidle] at hsec
  refine ⟨h.thread, h.absent, ?_, hmain.quiet⟩
  rw [show sec none = .outside from Option.some.inj hsec]
  exact hmain.outside

/-- A turn of the server that is no event leaves all agents where they are, and the shared
variables alone.
SOURCE: server.c:411-474, 543-581 -/
theorem AgentLaws.other (h : AgentLaws sec σ) (hstep : ServerStep σ τ)
    (hother : ∀ a lines, ¬ EventStep σ a lines τ) : AgentLaws sec τ ∧ τ.shared = σ.shared := by
  cases hstep with
  | retry hmain => exact ⟨h, rfl⟩
  | accept hmain client => exact ⟨h.moveMain (by rw [hmain]; rfl) orderlyMain_nil, rfl⟩
  | @full client hmain hfull =>
    refine ⟨h.moveMain (by rw [hmain]; rfl) ?_, rfl⟩
    unfold rejecting
    cases hreject : rejectClient client.writes with
    | ok events => exact orderly_rejectClient client.writes (Or.inl hreject)
    | error events => exact orderly_rejectClient client.writes (Or.inr hreject)
  | room hmain hroom => exact ⟨h.moveMain (by rw [hmain]; rfl) orderlyMain_nil, rfl⟩
  | @create client hmain =>
    have hidle : sec none = .outside := by
      have hsec := h.main
      rw [hmain] at hsec
      exact Option.some.inj hsec
    refine ⟨⟨fun i thread hthread => ?_, fun i hi => ?_, by rw [hidle]; rfl,
      orderlyMain_nil.quiet⟩, rfl⟩
    · rcases Nat.lt_or_ge i σ.threads.length with hlt | hge
      · rw [List.getElem?_append_left hlt] at hthread
        exact h.thread i thread hthread
      · rw [List.getElem?_append_right hge, List.getElem?_singleton] at hthread
        split_ifs at hthread with hi
        rw [← Option.some.inj hthread, h.absent i (List.getElem?_eq_none_iff.mpr hge)]
        exact threadIn_start _
    · apply h.absent
      rw [List.getElem?_eq_none_iff] at hi ⊢
      rw [List.length_append] at hi
      omega
  | createFails hmain => exact ⟨h.moveMain (by rw [hmain]; rfl) orderly_createFailed, rfl⟩
  | mainEvent hmain hperform => exact absurd (.main hmain hperform) (hother _ _)
  | comeBack hmain => exact ⟨h.moveMain (by rw [hmain]; rfl) orderlyMain_nil, rfl⟩
  | exit hmain => exact ⟨h.moveMain (by rw [hmain]; rfl) orderlyMain_nil, rfl⟩
  | threadEvent hthread hevent hperform =>
    exact absurd (.thread hthread hevent hperform) (hother _ _)
  | @receive i thread r hthread hdone hgoes hreceive =>
    obtain ⟨hin, hsecret⟩ := (h.thread i thread hthread).receive hgoes r
    have hlt := (List.getElem?_eq_some_iff.mp hthread).1
    refine ⟨⟨fun j u hu => ?_, fun j hj => ?_, h.main, h.quiet⟩, rfl⟩
    · dsimp only at hu
      by_cases hj : i = j
      · subst hj
        rw [List.getElem?_set_self hlt] at hu
        rw [← Option.some.inj hu]
        exact hin
      · rw [List.getElem?_set_ne hj] at hu
        exact h.thread j u hu
    · dsimp only at hj
      rw [List.getElem?_eq_none_iff, List.length_set, ← List.getElem?_eq_none_iff] at hj
      exact h.absent j hj

/-- INTERNAL: an event keeps the laws. -/
theorem LockLaws.event (h : LockLaws sec σ log) {a : Option ℕ} {lines : List LogEntry}
    (hstep : EventStep σ a lines τ) :
    ∃ sec', LockLaws sec' τ (log ++ lines.map (Prod.mk a)) := by
  obtain ⟨sec', event, whole, hagents, hothers, henter, hwhole, hperform, rfl⟩ :=
    h.agents.event hstep
  exact ⟨sec', hagents, (h.shared.eventMain henter hothers hwhole hperform).mono
    (wholeBlock_step hstep.serverStep h.agents)⟩

/-- INTERNAL: a turn that is no event keeps the laws. -/
theorem LockLaws.other (h : LockLaws sec σ log) (hstep : ServerStep σ τ)
    (hother : ∀ a lines, ¬ EventStep σ a lines τ) : LockLaws sec τ log := by
  obtain ⟨hagents, hshared⟩ := h.agents.other hstep hother
  refine ⟨hagents, ?_⟩
  rw [hshared]
  exact h.shared.mono (wholeBlock_step hstep h.agents)

end Steps

/-- The laws hold in every state of every run. -/
theorem lockLaws_of_log {argument : Option (List UInt8)} {log : List (Option ℕ × LogEntry)}
    {σ : ServerState} (h : ServerLog argument log σ) : ∃ sec, LockLaws sec σ log := by
  induction h with
  | start => exact ⟨_, lockLaws_initial argument⟩
  | event _ hstep ih =>
    obtain ⟨sec, hlaws⟩ := ih
    exact hlaws.event hstep
  | other _ hstep hother ih =>
    obtain ⟨sec, hlaws⟩ := ih
    exact ⟨sec, hlaws.other hstep hother⟩

/-! ## What the agents have to go -/

/-- What an agent has to go before it waits for a client, or ends. -/
def remaining (σ : ServerState) : Option ℕ → List MainEvent
  | none => pendingMain σ.main
  | some i =>
    ((σ.threads[i]?.map fun t => t.session.conn.trace.drop t.performed).getD []).map .act

section Agents

variable {σ τ : ServerState} {a : Option ℕ} {sec : Option ℕ → Section}

/-- INTERNAL: what a session thread has to go. -/
theorem remaining_thread {i : ℕ} {thread : SessionThread} (h : σ.threads[i]? = some thread) :
    remaining σ (some i) = (thread.session.conn.trace.drop thread.performed).map .act := by
  rw [remaining, h]
  rfl

/-- INTERNAL: what a session thread has to go after one more event. -/
theorem remaining_next {i : ℕ} {thread : SessionThread} {event : ServerEvent} (shared : Shared)
    (hthread : σ.threads[i]? = some thread)
    (hevent : thread.session.conn.trace[thread.performed]? = some event) :
    remaining σ (some i) = .act event ::
        remaining { σ with shared := shared, threads := σ.threads.set i thread.next } (some i) ∧
      ∀ b, b ≠ some i →
        remaining { σ with shared := shared, threads := σ.threads.set i thread.next } b =
          remaining σ b := by
  obtain ⟨hlt, hget⟩ := List.getElem?_eq_some_iff.mp hevent
  have hnext : (σ.threads.set i thread.next)[i]? = some thread.next :=
    List.getElem?_set_self (List.getElem?_eq_some_iff.mp hthread).1
  constructor
  · rw [remaining_thread hthread, remaining_thread hnext, List.drop_eq_getElem_cons hlt, hget]
    rfl
  · intro b hb
    cases b with
    | none => rfl
    | some j =>
      have hne : i ≠ j := by
        rintro rfl
        exact hb rfl
      simp only [remaining]
      rw [List.getElem?_set_ne hne]

/-- INTERNAL: an event is the next one that its agent has to go, and leaves the others alone. -/
theorem EventStep.takesOne {lines : List LogEntry} (h : EventStep σ a lines τ) :
    ∃ event, remaining σ a = event :: remaining τ a ∧
      σ.shared.performMain event = some τ.shared ∧ lines = mainLines event ∧
      ∀ b, b ≠ a → remaining τ b = remaining σ b := by
  cases h with
  | @thread i thread event shared hthread hevent hperform =>
    obtain ⟨hself, hothers⟩ := remaining_next shared hthread hevent
    exact ⟨.act event, hself, hperform, rfl, hothers⟩
  | @main event events comesBack shared hmain hperform =>
    refine ⟨event, ?_, hperform, rfl, fun b hb => ?_⟩
    · rw [remaining, hmain]
      rfl
    · cases b with
      | none => exact absurd rfl hb
      | some j => rfl

/-- INTERNAL: an agent that does not have to wait can perform its next event. -/
theorem exists_eventStep {event : MainEvent} {events : List MainEvent} {shared : Shared}
    (h : remaining σ a = event :: events) (hperform : σ.shared.performMain event = some shared) :
    ∃ τ, EventStep σ a (mainLines event) τ := by
  cases a with
  | none =>
    cases hmain : σ.main with
    | finishing pending comesBack =>
      rw [remaining, hmain] at h
      obtain rfl : pending = event :: events := h
      exact ⟨_, .main hmain hperform⟩
    | _ =>
      rw [remaining, hmain] at h
      cases h
  | some i =>
    cases hthread : σ.threads[i]? with
    | none =>
      rw [remaining, hthread] at h
      cases h
    | some thread =>
      rw [remaining_thread hthread] at h
      obtain ⟨next, rest, hdrop, rfl, -⟩ := List.map_eq_cons_iff.mp h
      have hevent : thread.session.conn.trace[thread.performed]? = some next := by
        rw [← List.head?_drop, hdrop]
        rfl
      exact ⟨_, .thread hthread hevent hperform⟩

/-- INTERNAL: what an agent has to go leads it out of all critical sections. -/
theorem AgentLaws.leadsOut (h : AgentLaws sec σ) (a : Option ℕ) :
    ∃ whole : List LogEntry → Bool, (∀ block, whole block = true → WholeBlock σ.threads a block) ∧
      (remaining σ a).foldlM (Section.enterMain whole) (sec a) = some .outside := by
  cases a with
  | none => exact ⟨mainBlock, fun block hblock => hblock, h.main⟩
  | some i =>
    cases hthread : σ.threads[i]? with
    | none =>
      refine ⟨fun _ => false, fun block hblock => (by cases hblock), ?_⟩
      rw [h.absent i hthread, remaining, hthread]
      rfl
    | some thread =>
      have hin := h.thread i thread hthread
      refine ⟨sessionBlock thread.session.secretCode,
        fun block hblock => ⟨thread, hthread, hblock⟩, ?_⟩
      have htrace := hin.trace
      rw [← List.take_append_drop thread.performed thread.session.conn.trace,
        List.foldlM_append, show (thread.session.conn.trace.take thread.performed).foldlM _ _ = _
          from hin.section_] at htrace
      rw [remaining_thread hthread, List.foldlM_map]
      exact htrace

end Agents

/-! ## Getting on -/

/-- The mutex that an agent with these events to go wants to lock next. -/
def nextMutex : List MainEvent → Option Mutex
  | .act (.lock mutex) :: _ => some mutex
  | _ => none

/-- INTERNAL: only locking can make an agent wait. -/
theorem exists_performMain {shared : Shared} {event : MainEvent} {events : List MainEvent}
    (h : ∀ m, nextMutex (event :: events) = some m → m ∉ shared.held) :
    ∃ shared', shared.performMain event = some shared' := by
  cases event with
  | act event =>
    cases event with
    | lock mutex => exact ⟨_, if_neg (h mutex rfl)⟩
    | count counter change => cases counter <;> exact ⟨_, rfl⟩
    | _ => exact ⟨_, rfl⟩
  | _ => exact ⟨_, rfl⟩

section Progress

variable {sec : Option ℕ → Section} {σ τ : ServerState}

/-- INTERNAL: an agent waits for no mutex before those it holds.
SOURCE: server.c:161-257, 411-474, 483-623 -/
theorem AgentLaws.rank_lt (h : AgentLaws sec σ) {a : Option ℕ} {m k : Mutex}
    (hnext : nextMutex (remaining σ a) = some m) (hk : k ∈ (sec a).held) :
    lockRank k < lockRank m := by
  obtain ⟨whole, -, hgo⟩ := h.leadsOut a
  unfold nextMutex at hnext
  split at hnext
  · rename_i mutex events hremaining
    obtain rfl := Option.some.inj hnext
    rw [hremaining] at hgo
    obtain ⟨c, henter, -⟩ := Option.bind_eq_some_iff.mp hgo
    simp only [Section.enterMain, Section.enter, Option.ite_none_right_eq_some] at henter
    exact henter.1 k hk
  · cases hnext

/-- INTERNAL: an agent that holds a mutex has something to go. -/
theorem AgentLaws.remaining_ne_nil (h : AgentLaws sec σ) {a : Option ℕ} {m : Mutex}
    (hm : m ∈ (sec a).held) : remaining σ a ≠ [] := by
  intro hnil
  obtain ⟨whole, -, hgo⟩ := h.leadsOut a
  rw [hnil] at hgo
  rw [show sec a = .outside from Option.some.inj hgo] at hm
  simp [Section.outside] at hm

/-- No deadlock: among agents with something to go that wait for no one else, some agent can
perform its next event. -/
theorem AgentLaws.exists_event (h : AgentLaws sec σ)
    (howned : Owned σ.shared.held fun a => (sec a).held) {busy : Option ℕ → Prop}
    (hgo : ∀ a, busy a → remaining σ a ≠ [])
    (hbusy : ∀ a m b, busy a → nextMutex (remaining σ a) = some m → m ∈ (sec b).held → busy b)
    {a : Option ℕ} (ha : busy a) : ∃ b lines τ, busy b ∧ EventStep σ b lines τ := by
  obtain ⟨b, hb, hready⟩ := howned.exists_ready lockRank 2
    (fun m => by cases m <;> decide) (fun _ _ hnext _ hk => h.rank_lt hnext hk) hbusy ha
  cases hremaining : remaining σ b with
  | nil => exact absurd hremaining (hgo b hb)
  | cons event events =>
    rw [hremaining] at hready
    obtain ⟨shared, hperform⟩ := exists_performMain hready
    obtain ⟨τ, hstep⟩ := exists_eventStep hremaining hperform
    exact ⟨b, _, τ, hb, hstep⟩

/-- The number of events that the agents have to go. -/
def toGo (σ : ServerState) : ℕ :=
  (pendingMain σ.main).length +
    total (fun thread => thread.session.conn.trace.length - thread.performed) σ.threads

/-- INTERNAL: an event is one event less to go. -/
theorem EventStep.lowers {a : Option ℕ} {lines : List LogEntry} (h : EventStep σ a lines τ) :
    toGo σ = toGo τ + 1 := by
  unfold toGo
  cases h with
  | @thread i thread event shared hthread hevent hperform =>
    have htotal := total_set (fun thread : SessionThread =>
      thread.session.conn.trace.length - thread.performed) thread.next hthread
    have hlt := (List.getElem?_eq_some_iff.mp hevent).1
    have hnext : thread.next.session.conn.trace.length - thread.next.performed + 1 =
        thread.session.conn.trace.length - thread.performed := by
      show thread.session.conn.trace.length - (thread.performed + 1) + 1 = _
      omega
    dsimp only
    omega
  | main hmain hperform =>
    rw [hmain]
    simp only [pendingMain, List.length_cons]
    omega

end Progress

end Comp30023.Interface
