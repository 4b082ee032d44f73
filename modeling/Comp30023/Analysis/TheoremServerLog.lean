import Comp30023.Interface.ServerLocks

/-!
# The log file

The lines that say what the server thought of a guess do not say whose guess it was: a reader of
the log file takes a hint to be about the guess directly above it. He may, since the two are
written under the mutex of the log file, like all lines that belong together.
-/

set_option autoImplicit false

namespace Comp30023.Analysis

open Comp30023.Library Comp30023.Model Comp30023.Interface

/-- INTERNAL: an agent that holds the mutex of the log file goes on with its block of lines, or
completes it. -/
theorem enter_inside {whole : List LogEntry → Bool} {event : MainEvent} {c c' : Section}
    (h : c.enterMain whole event = some c') (hheld : .logFile ∈ c.held) :
    whole c.block = true ∨ .logFile ∈ c'.held ∧ ∃ more, c'.block = c.block ++ more := by
  have hsilent : c'.held = c.held → c'.block = c.block →
      whole c.block = true ∨ .logFile ∈ c'.held ∧ ∃ more, c'.block = c.block ++ more :=
    fun hsame hblock => Or.inr ⟨hsame ▸ hheld, [], by rw [hblock, List.append_nil]⟩
  cases event with
  | free =>
    obtain rfl := Option.some.inj h
    exact hsilent rfl rfl
  | log line =>
    simp only [Section.enterMain, Option.ite_none_right_eq_some, Option.some.injEq] at h
    obtain ⟨-, rfl⟩ := h
    exact Or.inr ⟨hheld, _, rfl⟩
  | act event =>
    cases event with
    | log line =>
      simp only [Section.enterMain, Section.enter, Option.ite_none_right_eq_some,
        Option.some.injEq] at h
      obtain ⟨-, rfl⟩ := h
      exact Or.inr ⟨hheld, _, rfl⟩
    | lock mutex =>
      simp only [Section.enterMain, Section.enter, Option.ite_none_right_eq_some,
        Option.some.injEq] at h
      obtain ⟨hrank, rfl⟩ := h
      have hlog : mutex ≠ .logFile := by
        rintro rfl
        exact absurd (hrank _ hheld) (lt_irrefl _)
      rw [if_neg hlog]
      exact Or.inr ⟨List.mem_cons_of_mem _ hheld, [], (List.append_nil _).symm⟩
    | unlock mutex =>
      simp only [Section.enterMain, Section.enter, Option.ite_none_right_eq_some,
        Option.some.injEq] at h
      obtain ⟨⟨-, hwhole⟩, rfl⟩ := h
      by_cases hlog : mutex = .logFile
      · exact Or.inl (hwhole hlog).1
      · rw [if_neg hlog]
        refine Or.inr ⟨?_, [], (List.append_nil _).symm⟩
        simp [hheld, Ne.symm hlog]
    | count counter change =>
      cases counter <;>
        simp only [Section.enterMain, Section.enter, Option.ite_none_right_eq_some,
          Option.some.injEq] at h
      · exact hsilent (by rw [h.2]) (by rw [h.2])
      · exact hsilent (by rw [← h.2]) (by rw [← h.2])
      · exact hsilent (by rw [← h.2]) (by rw [← h.2])
    | _ =>
      obtain rfl := Option.some.inj h
      exact hsilent rfl rfl

/-- INTERNAL: an agent that holds the mutex of the log file will complete its block of lines. -/
theorem exists_rest_of_block {whole : List LogEntry → Bool} {events : List MainEvent} {c : Section}
    (h : events.foldlM (Section.enterMain whole) c = some .outside) (hheld : .logFile ∈ c.held) :
    ∃ more, whole (c.block ++ more) = true := by
  induction events generalizing c with
  | nil =>
    obtain rfl : c = .outside := Option.some.inj h
    simp [Section.outside] at hheld
  | cons event events ih =>
    obtain ⟨c', henter, hrest⟩ := Option.bind_eq_some_iff.mp h
    rcases enter_inside henter hheld with hwhole | ⟨hinside, more, hmore⟩
    · exact ⟨[], by rw [List.append_nil, hwhole]⟩
    · obtain ⟨rest, hwhole⟩ := ih hrest hinside
      exact ⟨more ++ rest, by rw [← List.append_assoc, ← hmore, hwhole]⟩

/-- INTERNAL: the log file is a beginning of whole blocks. -/
theorem prefix_of_blocks {argument : Option (List UInt8)} {log : List (Option ℕ × LogEntry)}
    {σ : ServerState} (h : ServerLog argument log σ) :
    ∃ blocks, (∀ block ∈ blocks, WholeBlock σ.threads block.1 block.2) ∧
      log <+: joined blocks ∧ (.logFile ∉ σ.shared.held → log = joined blocks) := by
  obtain ⟨sec, hlaws⟩ := lockLaws_of_log h
  by_cases hfree : .logFile ∈ σ.shared.held
  · obtain ⟨a, ha⟩ := (hlaws.shared.owned.mem_iff _).mp hfree
    obtain ⟨blocks, hwhole, hlog⟩ := hlaws.shared.journal.opened a ha
    obtain ⟨whole, himp, hgo⟩ := hlaws.agents.leadsOut a
    obtain ⟨more, hmore⟩ := exists_rest_of_block hgo ha
    refine ⟨blocks ++ [(a, (sec a).block ++ more)], ?_, ?_, fun hnot => absurd hfree hnot⟩
    · intro block hmem
      rcases List.mem_append.mp hmem with hmem | hmem
      · exact hwhole block hmem
      · rw [List.mem_singleton.mp hmem]
        exact himp _ hmore
    · refine ⟨more.map (Prod.mk a), ?_⟩
      rw [hlog, joined_concat, List.map_append, List.append_assoc]
  · obtain ⟨blocks, hwhole, hlog⟩ := hlaws.shared.journal.closed hfree
    exact ⟨blocks, hwhole, ⟨[], by rw [List.append_nil, hlog]⟩, fun _ => hlog⟩

/-- INTERNAL: where a hint stands in its block.
SOURCE: server.c:555-568 -/
theorem hint_in_block {threads : List SessionThread} {a : Option ℕ} {block : List LogEntry} {j : ℕ}
    {positions colors : ℕ} (hblock : WholeBlock threads a block)
    (hj : block[j]? = some (.session (.serverHint positions colors))) :
    ∃ i thread guess, a = some i ∧ threads[i]? = some thread ∧ j = 1 ∧
      block[0]? = some (.session (.clientGuess guess)) ∧
      getSecretCodeGuessFeedback (codeOf thread.session.secretCode) (codeOf guess) =
        ⟨positions, colors⟩ := by
  cases a with
  | none =>
    simp only [WholeBlock] at hblock
    unfold mainBlock at hblock
    split at hblock
    · rcases j with _ | j <;> simp at hj
    · rcases j with _ | j <;> simp at hj
    · rcases j with _ | _ | j <;> simp at hj
    · cases hblock
  | some i =>
    obtain ⟨thread, hthread, hblock⟩ := hblock
    unfold sessionBlock at hblock
    split at hblock
    case h_2 guess p c =>
      rcases j with _ | _ | j
      · simp at hj
      · obtain ⟨rfl, rfl⟩ : p = positions ∧ c = colors := by simpa using hj
        exact ⟨i, thread, guess, rfl, hthread, rfl, rfl, of_decide_eq_true hblock⟩
      · simp at hj
    case h_8 => cases hblock
    all_goals rcases j with _ | _ | j <;> simp at hj

/-- **The log file is in order.** Whatever turns the threads take, the log file is at any time a
beginning of whole blocks of lines, each written by one thread, and when its mutex is free it
consists of whole blocks only. So every hint stands directly below a guess of the same client,
and it is the feedback on that guess for the secret code of that client's game.
SOURCE: server.c:218-252, 438-467, 504-525, 555-568, 583-618 -/
theorem log_in_whole_blocks (argument : Option (List UInt8)) {log : List (Option ℕ × LogEntry)}
    {σ : ServerState} (h : ServerLog argument log σ) :
    (∃ blocks, (∀ block ∈ blocks, WholeBlock σ.threads block.1 block.2) ∧
      log <+: joined blocks ∧ (.logFile ∉ σ.shared.held → log = joined blocks)) ∧
    ∀ k a positions colors, log[k]? = some (a, .session (.serverHint positions colors)) →
      ∃ i thread guess j, a = some i ∧ σ.threads[i]? = some thread ∧ k = j + 1 ∧
        log[j]? = some (a, .session (.clientGuess guess)) ∧
        getSecretCodeGuessFeedback (codeOf thread.session.secretCode) (codeOf guess) =
          ⟨positions, colors⟩ := by
  refine ⟨prefix_of_blocks h, fun k a positions colors hk => ?_⟩
  obtain ⟨blocks, hwhole, ⟨rest, hrest⟩, -⟩ := prefix_of_blocks h
  have hlt := (List.getElem?_eq_some_iff.mp hk).1
  have hjoined : (joined blocks)[k]? = some (a, .session (.serverHint positions colors)) := by
    rw [← hrest, List.getElem?_append_left hlt, hk]
  obtain ⟨items, start, j, hmem, rfl, hj, hall⟩ := exists_block hjoined
  obtain ⟨i, thread, guess, rfl, hthread, rfl, hguess, hfeedback⟩ :=
    hint_in_block (hwhole _ hmem) hj
  refine ⟨i, thread, guess, start, rfl, hthread, rfl, ?_, hfeedback⟩
  have habove := hall 0 _ hguess
  rwa [← hrest, Nat.add_zero, List.getElem?_append_left (by omega)] at habove

/-! ## A log file with a hint -/

/-- A client that makes one guess. -/
def guessingClient : SessionInput :=
  { secretCode := [], stackBuffer := List.replicate gpSize 0, rand := fun _ => 0
    reads := [.data (ascii "ABCD" ++ List.replicate 188 0)], writes := [] }

/-- Its session thread, for a server without a secret code of its own. -/
def guessingThread : SessionThread :=
  SessionThread.start
    { guessingClient with secretCode := strncpy (mainSecretCode none) (secretCodeLen + 1) }

/-- What is in its buffer once its guess has come in. -/
def guessReceived : Received :=
  { rcvdMsgSize := gpSize, buf := ascii "ABCD" ++ List.replicate 188 0, reads := [] }

/-- What is in the log file after that. -/
def guessingLog : List (Option ℕ × LogEntry) :=
  [(some 0, .session .clientConnected), (some 0, .session (.serverSecret (ascii "AAAA"))),
    (some 0, .session (.clientGuess (ascii "ABCD"))), (some 0, .session (.serverHint 1 0))]

/-- INTERNAL: the server with one thread that has performed so many of its events. -/
def serving (shared : Shared) (thread : SessionThread) (performed : ℕ) : ServerState :=
  { shared := shared, secretCode := mainSecretCode none, main := .accepting
    threads := [{ thread with performed := performed }] }

/-- INTERNAL: that thread performs some events on end. -/
theorem serving_events {log : List (Option ℕ × LogEntry)} {shared shared' : Shared}
    {thread : SessionThread} {performed : ℕ} (events : List ServerEvent)
    (h : ServerLog none log (serving shared thread performed))
    (hevents : thread.session.conn.trace.drop performed = events)
    (hperform : events.foldlM Shared.perform shared = some shared') :
    ServerLog none (log ++ (events.flatMap eventLines).map (Prod.mk (some 0)))
      (serving shared' thread (performed + events.length)) := by
  induction events generalizing log shared performed with
  | nil =>
    cases hperform
    simpa using h
  | cons event events ih =>
    obtain ⟨shared₁, hone, hrest⟩ := Option.bind_eq_some_iff.mp hperform
    have hevent : thread.session.conn.trace[performed]? = some event := by
      rw [← List.head?_drop, hevents, List.head?_cons]
    have hnext : thread.session.conn.trace.drop (performed + 1) = events := by
      rw [← List.tail_drop, hevents, List.tail_cons]
    have hthread : (serving shared thread performed).threads[0]? =
        some { thread with performed := performed } := rfl
    have hone' : ServerLog none _ (serving shared₁ thread (performed + 1)) :=
      h.event (.thread hthread hevent hone)
    have hrun := ih hone' hnext hrest
    simpa [Nat.add_assoc, Nat.add_comm 1] using hrun

/-- INTERNAL: that thread has performed all its events and receives a guess. -/
theorem serving_receive {log : List (Option ℕ × LogEntry)} {shared : Shared}
    {thread : SessionThread} {performed : ℕ} {r : Received}
    (h : ServerLog none log (serving shared thread performed))
    (hdone : performed = thread.session.conn.trace.length) (hgoes : thread.isEnded = false)
    (hreceive : receiveMessage thread.session.conn.buffer gpSize thread.reads = some r) :
    ServerLog none log (serving shared (thread.receive r) performed) := by
  have hsame : SessionThread.receive r { thread with performed := performed } =
      { thread.receive r with performed := performed } := by
    unfold SessionThread.receive
    split <;> rename_i hcheck <;> rw [show checkGuess r thread.session = _ from hcheck]
  have hstep := ServerStep.receive (σ := serving shared thread performed) (i := 0) rfl hdone hgoes
    hreceive
  rw [hsame] at hstep
  refine h.other hstep ?_
  intro a lines hevent
  obtain ⟨event, hself, -, -, -⟩ := hevent.takesOne
  cases a with
  | none => cases hself
  | some k =>
    cases k with
    | succ k => cases hself
    | zero =>
      have hnil : remaining (serving shared thread performed) (some 0) =
          (thread.session.conn.trace.drop performed).map .act := rfl
      rw [hnil, hdone, List.drop_length] at hself
      cases hself

/-- INTERNAL: the session of a client up to its first guess and on to the end of what that leads
to. -/
theorem serving_guess (client : SessionInput) (thread : SessionThread) (r : Received)
    (shared shared' : Shared)
    (hthread : SessionThread.start
      { client with secretCode := strncpy (mainSecretCode none) (secretCodeLen + 1) } = thread)
    (hnew : thread.performed = 0)
    (hopens : thread.session.conn.trace.foldlM Shared.perform ⟨0, 0, 0, []⟩ = some shared)
    (hgoes : thread.isEnded = false)
    (hreceive : receiveMessage thread.session.conn.buffer gpSize thread.reads = some r)
    (hscores : ((thread.receive r).session.conn.trace.drop
      (0 + thread.session.conn.trace.length)).foldlM Shared.perform shared = some shared') :
    ServerLog none
      ([] ++ (thread.session.conn.trace.flatMap eventLines).map (Prod.mk (some 0)) ++
        (((thread.receive r).session.conn.trace.drop
          (0 + thread.session.conn.trace.length)).flatMap eventLines).map (Prod.mk (some 0)))
      (serving shared' (thread.receive r) (0 + thread.session.conn.trace.length +
        ((thread.receive r).session.conn.trace.drop
          (0 + thread.session.conn.trace.length)).length)) := by
  have haccept := ServerLog.other .start
    (.accept (σ := ServerState.initial none) rfl client) (by rintro a lines ⟨⟩)
  have hroom := haccept.other (.room rfl (show (0 : ℤ) < 40 by decide)) (by rintro a lines ⟨⟩)
  have hcreate : ServerLog none [] ⟨⟨0, 0, 0, []⟩, mainSecretCode none, .accepting,
      [SessionThread.start
        { client with secretCode := strncpy (mainSecretCode none) (secretCodeLen + 1) }]⟩ :=
    hroom.other (.create rfl) (by rintro a lines ⟨⟩)
  rw [hthread, show thread = { thread with performed := 0 } by rw [← hnew]] at hcreate
  have hopened := serving_events thread.session.conn.trace hcreate rfl hopens
  have hreceived := serving_receive (r := r) hopened (Nat.zero_add _) hgoes hreceive
  exact serving_events _ hreceived rfl hscores

/-- INTERNAL: the run of a server with that client. -/
theorem guessing_run : ∃ σ, ServerLog none guessingLog σ := by
  have hscored := serving_guess guessingClient guessingThread guessReceived
    ⟨1, 1, 0, []⟩ ⟨1, 1, 0, []⟩ rfl (by decide +kernel)
    (by decide +kernel) (by decide +kernel) (by decide +kernel) (by decide +kernel)
  have hlines : ([] ++ (guessingThread.session.conn.trace.flatMap eventLines).map (Prod.mk (some 0)) ++
      (((guessingThread.receive guessReceived).session.conn.trace.drop
        (0 + guessingThread.session.conn.trace.length)).flatMap eventLines).map (Prod.mk (some 0))) =
      guessingLog := by decide +kernel
  rw [hlines] at hscored
  exact ⟨_, hscored⟩

/-- INTERNAL: the laws hold for that log file, and its hint is the feedback on the guess. -/
theorem log_in_whole_blocks_guessing :
    ∃ σ, ServerLog none guessingLog σ ∧
      ∃ i thread guess j, some 0 = some i ∧ σ.threads[i]? = some thread ∧ 3 = j + 1 ∧
        guessingLog[j]? = some (some 0, .session (.clientGuess guess)) ∧
        getSecretCodeGuessFeedback (codeOf thread.session.secretCode) (codeOf guess) = ⟨1, 0⟩ := by
  obtain ⟨σ, hlog⟩ := guessing_run
  exact ⟨σ, hlog, (log_in_whole_blocks none hlog).2 3 (some 0) 1 0 rfl⟩

end Comp30023.Analysis
