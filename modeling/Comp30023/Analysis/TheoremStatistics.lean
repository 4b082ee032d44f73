import Mathlib.Data.List.Infix
import Comp30023.Analysis.ServerTally
import Comp30023.Analysis.TheoremServerLog
import Comp30023.Interface.ServerShutdown

/-!
# The statistics at the end of the log file

The handler of signals ends the log file with the number of clients that were served and the
number of those that have won. It reads both counters without their mutexes, but while it holds
the one of the log file.
-/

set_option autoImplicit false

namespace Comp30023.Analysis

open Comp30023.Library Comp30023.Model Comp30023.Interface

/-! ## One thread -/

/-- INTERNAL: a win is counted before it is logged.
SOURCE: server.c:583-608 -/
theorem wins_of_enter {whole : List LogEntry → Bool} {event : ServerEvent} {c c' : Section}
    (h : c.enter whole event = some c') (hc : 0 ≤ c.wins) :
    c'.wins = c.wins + winsChange event - successLine event ∧ 0 ≤ c'.wins := by
  cases event with
  | lock mutex =>
    simp only [Section.enter, Option.ite_none_right_eq_some, Option.some.injEq] at h
    rw [← h.2]
    exact ⟨by simp [winsChange, successLine], hc⟩
  | unlock mutex =>
    simp only [Section.enter, Option.ite_none_right_eq_some, Option.some.injEq] at h
    rw [← h.2]
    exact ⟨by simp [winsChange, successLine], hc⟩
  | count counter change =>
    cases counter <;>
      simp only [Section.enter, Option.ite_none_right_eq_some, Option.some.injEq] at h
    · rw [← h.2]
      exact ⟨by simp [winsChange, successLine], hc⟩
    · rw [← h.2]
      exact ⟨by simp [winsChange, successLine], hc⟩
    · obtain ⟨⟨-, hnone, rfl⟩, rfl⟩ := h
      simp [winsChange, successLine, hnone]
  | log line =>
    simp only [Section.enter, Option.ite_none_right_eq_some, Option.some.injEq] at h
    obtain ⟨⟨-, hwon⟩, rfl⟩ := h
    by_cases hline : line = .successGameOver
    · subst hline
      simp [winsChange, successLine, hwon rfl]
    · have hnone : successLine (.log line) = 0 := by
        cases line <;> first | rfl | exact absurd rfl hline
      rw [hnone, if_neg hline]
      exact ⟨by simp [winsChange], hc⟩
  | _ =>
    obtain rfl := Option.some.inj h
    exact ⟨by simp [winsChange, successLine], hc⟩

/-- INTERNAL: the same for any number of events. -/
theorem wins_of_foldlM {whole : List LogEntry → Bool} {events : List ServerEvent} {c c' : Section}
    (h : events.foldlM (Section.enter whole) c = some c') (hc : 0 ≤ c.wins) :
    c'.wins = c.wins + weigh winsChange events - weigh successLine events ∧ 0 ≤ c'.wins := by
  induction events generalizing c with
  | nil =>
    obtain rfl := Option.some.inj h
    exact ⟨by simp [weigh], hc⟩
  | cons event events ih =>
    obtain ⟨d, hd, hrest⟩ := Option.bind_eq_some_iff.mp h
    obtain ⟨hone, hpos⟩ := wins_of_enter hd hc
    obtain ⟨hall, hpos'⟩ := ih hrest hpos
    refine ⟨?_, hpos'⟩
    simp only [weigh, List.map_cons, List.sum_cons] at hall ⊢
    omega

/-- A thread has logged no more wins than it has counted. -/
theorem successes_le_wins {thread : SessionThread} {c : Section} (h : ThreadIn thread c) :
    weigh successLine thread.done ≤ weigh winsChange thread.done := by
  obtain ⟨hwins, hpos⟩ := wins_of_foldlM h.section_ (le_refl 0)
  have hzero : Section.outside.wins = 0 := rfl
  omega

/-- The changes that these events make to a counter, in order. -/
def changesOf (counter : Counter) (events : List ServerEvent) : List ℤ :=
  events.filterMap fun
    | .count c change => if c = counter then some change else none
    | _ => none

theorem changesOf_append (counter : Counter) (events events' : List ServerEvent) :
    changesOf counter (events ++ events') = changesOf counter events ++ changesOf counter events' :=
  List.filterMap_append

/-- INTERNAL: the books list the changes to the counters. -/
theorem changesOf_books {events : List ServerEvent} {b b' : Books}
    (h : events.foldlM Books.enter b = some b') :
    b'.total = b.total ++ changesOf .clientsCount events ∧
      b'.wins = b.wins ++ changesOf .clientsWinCount events := by
  induction events generalizing b with
  | nil =>
    cases h
    simp [changesOf]
  | cons event events ih =>
    obtain ⟨c, hc, hrest⟩ := Option.bind_eq_some_iff.mp h
    obtain ⟨htotal, hwins⟩ := ih hrest
    rw [htotal, hwins, ← List.singleton_append (x := event), changesOf_append, changesOf_append,
      ← List.append_assoc, ← List.append_assoc]
    unfold Books.enter at hc
    split at hc <;> first | (split_ifs at hc) | skip
    all_goals
      cases hc
      simp [changesOf]

/-- INTERNAL: the weights of events as sums of changes. -/
theorem weigh_changes (events : List ServerEvent) :
    weigh clientsChange events = (changesOf .clientsCount events).sum ∧
      weigh winsChange events = (changesOf .clientsWinCount events).sum := by
  induction events with
  | nil => exact ⟨rfl, rfl⟩
  | cons event events ih =>
    rw [← List.singleton_append (x := event), weigh_append, weigh_append, changesOf_append,
      changesOf_append, List.sum_append, List.sum_append, ih.1, ih.2]
    have hone : weigh clientsChange [event] = (changesOf .clientsCount [event]).sum ∧
        weigh winsChange [event] = (changesOf .clientsWinCount [event]).sum := by
      cases event with
      | count counter change => cases counter <;> simp [weigh, clientsChange, winsChange, changesOf]
      | _ => exact ⟨rfl, rfl⟩
    rw [hone.1, hone.2]
    exact ⟨rfl, rfl⟩

/-- INTERNAL: what a thread has done so far changes the counters in the same way, as far as it
goes. -/
theorem changesOf_done (counter : Counter) (thread : SessionThread) :
    changesOf counter thread.done <+: changesOf counter thread.session.conn.trace := by
  refine ⟨changesOf counter (thread.session.conn.trace.drop thread.performed), ?_⟩
  rw [← changesOf_append, SessionThread.done, List.take_append_drop]

/-- What is known of every thread of the server, also after a signal: it begins by counting its
client, and keeps the books of a session. -/
def Registered (thread : SessionThread) : Prop :=
  ThreadWith (fun s => ∃ input, Waits input s ∧ Follows (openedSession input) s)
    (fun s => ∃ input, Ended input s ∧ Follows (openedSession input) s) thread

/-- INTERNAL: the changes of a whole trace. -/
theorem Registered.trace {thread : SessionThread} (h : Registered thread) :
    (∃ input, (openedSession input).conn.trace <+: thread.session.conn.trace) ∧
      changesOf .clientsCount thread.session.conn.trace = [1] ∧
      changesOf .clientsWinCount thread.session.conn.trace <+: [1] := by
  cases hended : thread.isEnded with
  | false =>
    obtain ⟨input, ⟨hbooks, -⟩, hfollows⟩ := h.goesOn hended
    obtain ⟨htotal, hwins⟩ := changesOf_books hbooks
    exact ⟨⟨input, hfollows⟩, htotal.symm, [1], congrArg (· ++ [1]) hwins.symm⟩
  | true =>
    obtain ⟨input, ⟨wins, hbooks, hcases⟩, hfollows⟩ := h.ended hended
    obtain ⟨htotal, hwins⟩ := changesOf_books hbooks
    refine ⟨⟨input, hfollows⟩, htotal.symm, ?_⟩
    rw [show changesOf .clientsWinCount thread.session.conn.trace = wins from hwins.symm]
    rcases hcases with rfl | ⟨rfl, -⟩
    · exact ⟨[1], rfl⟩
    · exact List.prefix_rfl

/-- A thread has counted no more wins than clients: it counts its client before anything else.
SOURCE: server.c:504-608 -/
theorem Registered.wins_le_clients {thread : SessionThread} (h : Registered thread) :
    weigh winsChange thread.done ≤ weigh clientsChange thread.done := by
  obtain ⟨⟨input, hopened⟩, hclients, hwins⟩ := h.trace
  rw [(weigh_changes thread.done).1, (weigh_changes thread.done).2]
  have hinits : ∀ l : List ℤ, l <+: [1] → l = [] ∨ l = [1] := by
    intro l hl
    have hmem := (List.mem_inits _ _).mpr hl
    simpa using hmem
  have htotal := hinits _ (hclients ▸ changesOf_done .clientsCount thread)
  rcases hinits _ ((changesOf_done .clientsWinCount thread).trans hwins) with hnone | hone
  · rw [hnone]
    rcases htotal with htotal | htotal
    · rw [htotal]
    · rw [htotal]
      decide
  · -- the win comes after the opening, in which the client is counted
    have hdone : thread.done <+: thread.session.conn.trace := List.take_prefix _ _
    rcases List.prefix_or_prefix_of_prefix hdone hopened with hinside | hafter
    · obtain ⟨rest, hrest⟩ := hinside
      have hopening : changesOf .clientsWinCount (openedSession input).conn.trace = [] := rfl
      rw [← hrest, changesOf_append, hone] at hopening
      cases hopening
    · obtain ⟨rest, hrest⟩ := hafter
      have hcounted : changesOf .clientsCount thread.done =
          [1] ++ changesOf .clientsCount rest := by
        rw [← hrest, changesOf_append]
        rfl
      rcases htotal with htotal | htotal
      · rw [htotal] at hcounted
        cases hcounted
      · rw [htotal, hone]

/-- INTERNAL: a new thread.
SOURCE: server.c:456, 483-538 -/
theorem registered_start (input : SessionInput) : Registered (SessionThread.start input) :=
  (threadWith_start (((waits_startSession input).and (replies_startSession input)).mono
    (fun _ hs => ⟨input, hs.1, hs.2.follows⟩) fun _ hs => ⟨input, hs.1, hs.2.follows⟩)).1

/-- INTERNAL: a guess is received.
SOURCE: server.c:543-581 -/
theorem Registered.receive {thread : SessionThread} (h : Registered thread)
    (hgoes : thread.isEnded = false) (r : Received) : Registered (thread.receive r) := by
  obtain ⟨input, hwaits, hfollows⟩ := h.goesOn hgoes
  exact (ThreadWith.receive h hgoes
    (((waits_checkGuess r thread.session hwaits).and (follows_checkGuess r thread.session)).mono
      (fun _ hs => ⟨input, hs.1, hfollows.trans hs.2⟩)
      fun _ hs => ⟨input, hs.1, hfollows.trans hs.2⟩)).1

/-! ## The server -/

/-- INTERNAL: one turn of the server. -/
theorem registered_step {σ τ : ServerState} (h : ∀ thread ∈ σ.threads, Registered thread)
    (hstep : ServerStep σ τ) : ∀ thread ∈ τ.threads, Registered thread := by
  have hset : ∀ {i : ℕ} {thread : SessionThread}, Registered thread →
      ∀ t ∈ σ.threads.set i thread, Registered t := by
    intro i thread hthread t ht
    rcases List.mem_or_eq_of_mem_set ht with hmem | rfl
    · exact h t hmem
    · exact hthread
  cases hstep with
  | create hmain =>
    intro thread hmem
    rcases List.mem_append.mp hmem with hold | hnew
    · exact h thread hold
    · rw [List.mem_singleton.mp hnew]
      exact registered_start _
  | threadEvent hthread hevent hperform =>
    exact hset (ThreadWith.next (h _ (List.mem_of_getElem? hthread)) hevent)
  | receive hthread hdone hgoes hreceive =>
    exact hset ((h _ (List.mem_of_getElem? hthread)).receive hgoes _)
  | _ => exact h

/-- INTERNAL: every thread is registered, before and after a signal. -/
theorem registered_of_run {argument : Option (List UInt8)} {a : Option ℕ}
    {log : List (Option ℕ × LogEntry)} {σ : ServerState} {s : Shutdown}
    (h : ServerLog argument log σ) (hrun : ShutdownRun a (Shutdown.signal log σ) s) :
    ∀ thread ∈ s.server.threads, Registered thread := by
  induction hrun with
  | refl =>
    induction h with
    | start => simp [Shutdown.signal, ServerState.initial]
    | event _ hstep ih => exact registered_step ih hstep.serverStep
    | other _ hstep _ ih => exact registered_step ih hstep
  | tail _ hstep ih =>
    cases hstep with
    | event _ _ hstep => exact registered_step ih hstep.serverStep
    | other _ hstep => exact registered_step ih hstep
    | handler => exact ih

/-- INTERNAL: sums of weights that are ordered thread by thread. -/
theorem total_le_total {f g : SessionThread → ℤ} {threads : List SessionThread}
    (h : ∀ thread ∈ threads, f thread ≤ g thread) : total f threads ≤ total g threads :=
  List.sum_le_sum h

/-- INTERNAL: what the counters are while the handler holds the mutex of the log file. -/
theorem statistics_of_laws {sec : Option ℕ → Section} {agentLog log : List (Option ℕ × LogEntry)}
    {σ : ServerState} {events : List HandlerEvent} (hlaws : ShutdownLaws sec agentLog log σ events)
    (hregistered : ∀ thread ∈ σ.threads, Registered thread) (hholds : handlerHolds events = true)
    (hopen : fileIsOpen events = true) :
    σ.shared.clientsCount = connections (log.map Prod.snd) ∧
      (successes (log.map Prod.snd) : ℤ) ≤ σ.shared.clientsWinCount ∧
      σ.shared.clientsWinCount ≤ connections (log.map Prod.snd) := by
  have hclosed := hlaws.shared.counted.closed
  rw [forAgents, if_pos hholds] at hclosed
  have hclients : σ.shared.clientsCount = connections (log.map Prod.snd) := by
    rw [(hlaws.file hopen).1]
    exact hclosed (by simp [withoutLogFile])
  have hwins : σ.shared.clientsWinCount = total _ σ.threads := hlaws.wins
  have hsuccesses : (successes (agentLog.map Prod.snd) : ℤ) = total _ σ.threads := hlaws.successes
  have hentered : σ.shared.clientsCount = total _ σ.threads := hlaws.clients
  refine ⟨hclients, ?_, ?_⟩
  · rw [(hlaws.file hopen).2, hsuccesses, hwins]
    refine total_le_total fun thread hmem => ?_
    obtain ⟨i, hthread⟩ := List.mem_iff_getElem?.mp hmem
    exact successes_le_wins (hlaws.agents.thread i thread hthread)
  · rw [← hclients, hentered, hwins]
    exact total_le_total fun thread hmem => (hregistered thread hmem).wins_le_clients

/-! ## The log file -/

/-- The number of clients that the handler has written is that of the lines above, and the number
of winners lies between the number of won games logged above and the number of clients. -/
def Agrees (log : List (Option ℕ × LogEntry)) : Prop :=
  ∀ k b,
    (∀ count : ℤ, log[k]? = some (b, .handler (.clientsConnected count)) →
      count = connections ((log.take k).map Prod.snd)) ∧
    ∀ count : ℤ, log[k]? = some (b, .handler (.clientsWon count)) →
      (successes ((log.take k).map Prod.snd) : ℤ) ≤ count ∧
        count ≤ connections ((log.take k).map Prod.snd)

/-- INTERNAL: more lines, which agree with those above them. -/
theorem Agrees.append {log new : List (Option ℕ × LogEntry)} (h : Agrees log)
    (hnew : ∀ k b,
      (∀ count : ℤ, new[k]? = some (b, .handler (.clientsConnected count)) →
        count = connections ((log ++ new.take k).map Prod.snd)) ∧
      ∀ count : ℤ, new[k]? = some (b, .handler (.clientsWon count)) →
        (successes ((log ++ new.take k).map Prod.snd) : ℤ) ≤ count ∧
          count ≤ connections ((log ++ new.take k).map Prod.snd)) : Agrees (log ++ new) := by
  intro k b
  rcases Nat.lt_or_ge k log.length with hlt | hge
  · rw [List.getElem?_append_left hlt, List.take_append_of_le_length hlt.le]
    exact h k b
  · rw [List.getElem?_append_right hge, List.take_append, List.take_of_length_le hge]
    exact hnew (k - log.length) b

/-- INTERNAL: lines of the agents are none of the handler. -/
theorem ne_handler_of_mainLines {event : MainEvent} {line : HandlerLogLine} :
    .handler line ∉ mainLines event := by
  cases event with
  | act event => cases event <;> simp [mainLines, eventLines]
  | _ => simp [mainLines]

/-- INTERNAL: lines that an agent writes. -/
theorem Agrees.event {log : List (Option ℕ × LogEntry)} (h : Agrees log) {σ τ : ServerState}
    {b : Option ℕ} {lines : List LogEntry} (hstep : EventStep σ b lines τ) (isOpen : Bool) :
    Agrees (log ++ (if isOpen then lines else []).map (Prod.mk b)) := by
  obtain ⟨event, -, -, rfl, -⟩ := hstep.takesOne
  have hnone : ∀ (k : ℕ) (c : Option ℕ) (line : HandlerLogLine), ((if isOpen then mainLines event else []).map (Prod.mk b))[k]? ≠
      some (c, LogEntry.handler line) := by
    intro k c line hk
    obtain ⟨entry, hentry, heq⟩ := List.mem_map.mp (List.mem_of_getElem? hk)
    obtain ⟨-, rfl⟩ := Prod.mk.inj heq
    split_ifs at hentry
    · exact ne_handler_of_mainLines hentry
    · cases hentry
  exact h.append fun k c => ⟨fun _ hk => absurd hk (hnone _ _ _), fun _ hk => absurd hk (hnone _ _ _)⟩

/-- INTERNAL: before a signal, the handler has written nothing. -/
theorem agrees_of_log {argument : Option (List UInt8)} {log : List (Option ℕ × LogEntry)}
    {σ : ServerState} (h : ServerLog argument log σ) : Agrees log := by
  induction h with
  | start => exact fun k b => ⟨fun _ hk => by simp at hk, fun _ hk => by simp at hk⟩
  | event _ hstep ih => exact ih.event hstep true
  | other _ _ _ ih => exact ih

/-- **The statistics agree with the log file.** Whenever the signal comes and whatever agent it
reaches, the number of clients that the handler writes to the log file is the number of lines
above it that tell of a new client; and the number of winners that it writes is at least the
number of won games logged above it, and at most the number of clients.
SOURCE: server.c:83-159, 161-191, 504-525, 583-608 -/
theorem statistics_agree_with_log (argument : Option (List UInt8))
    {log : List (Option ℕ × LogEntry)} {σ : ServerState} (a : Option ℕ) {s : Shutdown}
    (h : ServerLog argument log σ) (hrun : ShutdownRun a (Shutdown.signal log σ) s) :
    Agrees s.log := by
  induction hrun with
  | refl => exact agrees_of_log h
  | @tail s t hrun hstep ih =>
    cases hstep with
    | event _ _ hstep => exact ih.event hstep _
    | other => exact ih
    | @handler event events shared hhandler hperform =>
      have hsuffix := suffix_of_run hrun
      obtain ⟨sec, agentLog, hlaws⟩ := shutdownLaws_of_run h hrun
      rw [hhandler] at hsuffix hlaws
      -- only the one line that the handler may write now is to be looked at
      have hline : ∀ k b line, ((handlerLines s.server.shared event).map (Prod.mk a))[k]? =
          some (b, LogEntry.handler line) → k = 0 ∧ .handler line ∈ handlerLines s.server.shared event := by
        intro k b line hk
        obtain ⟨entry, hentry, heq⟩ := List.mem_map.mp (List.mem_of_getElem? hk)
        obtain ⟨-, rfl⟩ := Prod.mk.inj heq
        rw [(handler_lines hsuffix hentry).1] at hk
        cases k with
        | zero => exact ⟨rfl, hentry⟩
        | succ k => simp at hk
      refine ih.append fun k b => ⟨fun count hk => ?_, fun count hk => ?_⟩
      · obtain ⟨rfl, hentry⟩ := hline k b _ hk
        obtain ⟨-, hholds, hopen, -, -, hclients, -⟩ := handler_lines hsuffix hentry
        obtain ⟨hcount, -⟩ := statistics_of_laws hlaws (registered_of_run h hrun) hholds hopen
        rw [List.take_zero, List.append_nil, ← hcount]
        exact hclients count rfl
      · obtain ⟨rfl, hentry⟩ := hline k b _ hk
        obtain ⟨-, hholds, hopen, -, -, -, hwins⟩ := handler_lines hsuffix hentry
        obtain ⟨-, hbounds⟩ := statistics_of_laws hlaws (registered_of_run h hrun) hholds hopen
        obtain rfl := hwins count rfl
        rw [List.take_zero, List.append_nil]
        exact hbounds

/-- A client that guesses the secret at once. -/
def winningClient : SessionInput :=
  { guessingClient with reads := [.data (ascii "AAAA" ++ List.replicate 188 0)] }

/-- Its session thread, for a server without a secret code of its own. -/
def winningThread : SessionThread :=
  SessionThread.start
    { winningClient with secretCode := strncpy (mainSecretCode none) (secretCodeLen + 1) }

/-- What is in its buffer once its guess has come in. -/
def winReceived : Received :=
  { rcvdMsgSize := gpSize, buf := ascii "AAAA" ++ List.replicate 188 0, reads := [] }

/-- What is in the log file when the client is gone. -/
def winningLog : List (Option ℕ × LogEntry) :=
  [(some 0, .session .clientConnected), (some 0, .session (.serverSecret (ascii "AAAA"))),
    (some 0, .session (.clientGuess (ascii "AAAA"))), (some 0, .session (.serverHint 4 0)),
    (some 0, .session .successGameOver), (some 0, .session .clientDisconnected)]

/-- INTERNAL: the game of that client.
SOURCE: server.c:411-474, 483-623 -/
theorem winning_run : ∃ σ, ServerLog none winningLog σ ∧ σ.shared = ⟨0, 1, 1, []⟩ := by
  have hscored := serving_guess winningClient winningThread winReceived
    ⟨1, 1, 0, []⟩ ⟨0, 1, 1, []⟩ rfl (by decide +kernel)
    (by decide +kernel) (by decide +kernel) (by decide +kernel) (by decide +kernel)
  have hlines : ([] ++ (winningThread.session.conn.trace.flatMap eventLines).map (Prod.mk (some 0)) ++
      (((winningThread.receive winReceived).session.conn.trace.drop
        (0 + winningThread.session.conn.trace.length)).flatMap eventLines).map (Prod.mk (some 0))) =
      winningLog := by decide +kernel
  rw [hlines] at hscored
  exact ⟨_, hscored, rfl⟩

/-- INTERNAL: a signal behind that game, with the handler come as far as its statistics: one client
and one winner. -/
theorem statistics_agree_with_log_won :
    Agrees (winningLog ++ [(none, .handler .serverShutdown), (none, .handler (.clientsConnected 1)),
      (none, .handler (.clientsWon 1))]) := by
  obtain ⟨⟨shared, secretCode, main, threads⟩, hlog, rfl⟩ := winning_run
  have hrun : ShutdownRun none (Shutdown.signal winningLog ⟨⟨0, 1, 1, []⟩, secretCode, main, threads⟩)
      _ :=
    ((((Relation.ReflTransGen.single (.handler rfl rfl)).tail (.handler rfl rfl)).tail
      (.handler rfl rfl)).tail (.handler rfl rfl)).tail (.handler rfl rfl)
  exact statistics_agree_with_log none none hlog hrun

end Comp30023.Analysis
