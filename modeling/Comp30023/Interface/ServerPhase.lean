import Mathlib.Data.List.Induction
import Comp30023.Interface.Transcript

/-!
# The server's side of the protocol

The order in which a session sends its messages, checks guesses, counts a win or logs a loss,
as an automaton over its events. A session that gets all its messages through follows the
automaton, so every statement about the order of events and their numbers is read off the
phase the automaton is in, for a whole trace or for any beginning of it.
-/

set_option autoImplicit false

namespace Comp30023.Interface

open Comp30023.Library Comp30023.Model

/-- Where a session is. -/
inductive Phase where
  | greeting
  /-- a guess was asked for, and not yet received -/
  | prompted
  /-- a guess was received, and not yet answered -/
  | received
  /-- the last guess was valid, and its feedback was sent -/
  | scored
  /-- the win was counted -/
  | won
  /-- the loss was logged -/
  | lost
  /-- the client was told whether it has won -/
  | told (hasWon : Bool)
deriving Repr, DecidableEq

/-- What a message leads to; `none` when it must not be sent in this phase. -/
def Phase.onSend : Phase → GpMessageType → Option Phase
  | .greeting, .dispMsg => some .greeting
  | .greeting, .guessReq => some .prompted
  | .scored, .guessReq => some .prompted
  | .received, .guessInv => some .prompted
  | .received, .guessFbk => some .scored
  | .won, .gameSucc => some (.told true)
  | .lost, .gameFail => some (.told false)
  | _, _ => none

/-- What an event leads to; `none` when it must not come in this phase. -/
def Phase.advance (p : Phase) : ServerEvent → Option Phase
  | .send msgType _ _ => p.onSend msgType
  | .check _ => if p = .prompted then some .received else none
  | .count .clientsWinCount change => if p = .scored ∧ change = 1 then some .won else none
  | .log .failureGameOver => if p = .scored then some .lost else none
  | _ => some p

/-- The phase after these events. -/
def phase (trace : List ServerEvent) : Option Phase := trace.foldlM Phase.advance .greeting

theorem phase_append (trace events : List ServerEvent) :
    phase (trace ++ events) = (phase trace).bind fun p => events.foldlM Phase.advance p :=
  List.foldlM_append

/-- INTERNAL: a trace that follows the automaton does so from the beginning. -/
theorem phase_take {trace : List ServerEvent} {p : Phase} (h : phase trace = some p) (n : ℕ) :
    ∃ q, phase (trace.take n) = some q := by
  rw [← List.take_append_drop n trace, phase_append, Option.bind_eq_some_iff] at h
  obtain ⟨q, hq, -⟩ := h
  exact ⟨q, hq⟩

/-! ## Sessions follow the automaton -/

/-- INTERNAL: the phase after some more events. -/
theorem phase_record {s : Session} {events : List ServerEvent} {p q : Phase}
    (h : phase s.conn.trace = some p) (hevents : events.foldlM Phase.advance p = some q) :
    phase (s.record events).conn.trace = some q := by
  show phase (s.conn.trace ++ events) = some q
  rw [phase_append, h]
  exact hevents

/-- INTERNAL: sending a message.
SOURCE: server.c:193-257 -/
theorem phase_send {s : Session} {p q : Phase} {msgType : GpMessageType}
    {msgPayload : Option (List UInt8)} (h : phase s.conn.trace = some p)
    (hsend : p.advance (.send msgType msgPayload gpSize) = some q) :
    Outcome (fun t => phase t.conn.trace = some q) (fun t => ¬ AllSent t.conn.trace)
      (s.send msgType msgPayload) := by
  refine (sent_send s msgType msgPayload).mono (fun t ht => ?_) fun t ht => ht
  rw [ht, phase_append, h]
  simp [hsend]

/-- INTERNAL: on to the next guess, or to the end.
SOURCE: server.c:535-538, 583-622 -/
theorem phase_nextGuess {s : Session} (h : phase s.conn.trace = some .scored) :
    Outcome (fun t => phase t.conn.trace = some .prompted)
      (fun t => AllSent t.conn.trace → ∃ hasWon, phase t.conn.trace = some (.told hasWon))
      (nextGuess s) := by
  have hverdict : Outcome (fun t => ∃ hasWon, phase t.conn.trace = some (.told hasWon))
      (fun t => ¬ AllSent t.conn.trace) (verdict s) := by
    unfold verdict
    split_ifs
    · exact (phase_send (phase_record h rfl) rfl).mono (fun t ht => ⟨true, ht⟩) fun t ht => ht
    · exact (phase_send (phase_record h rfl) rfl).mono (fun t ht => ⟨false, ht⟩) fun t ht => ht
  unfold nextGuess
  split_ifs
  · exact (phase_send h rfl).mono (fun t ht => ht) fun t ht hall => absurd hall ht
  · unfold gameOver
    refine (hverdict.mono (fun t ht => ht) fun t ht hall => absurd hall ht).bind ?_
    rintro t ⟨hasWon, ht⟩ -
    exact ⟨hasWon, phase_record ht (by cases hasWon <;> rfl)⟩

/-- INTERNAL: what a guess leads to.
SOURCE: server.c:543-581 -/
theorem phase_checkGuess (r : Received) {s : Session} (h : phase s.conn.trace = some .prompted) :
    Outcome (fun t => phase t.conn.trace = some .prompted)
      (fun t => AllSent t.conn.trace → ∃ hasWon, phase t.conn.trace = some (.told hasWon))
      (checkGuess r s) := by
  have hreceived : phase (afterReceive r s).conn.trace = some .received := phase_record h rfl
  rw [checkGuess_eq]
  split_ifs
  · have hscore : Outcome (fun t => phase t.conn.trace = some .scored)
        (fun t => ¬ AllSent t.conn.trace) (scoreGuess (afterReceive r s)) := by
      rw [scoreGuess_eq]
      exact Outcome.bind (phase_send (phase_record hreceived rfl) rfl) fun t ht => ht
    exact (hscore.mono (fun t ht => ht) fun t ht hall => absurd hall ht).bind
      fun t ht => phase_nextGuess ht
  · exact (phase_send hreceived rfl).mono (fun t ht => ht) fun t ht hall => absurd hall ht

/-- INTERNAL: the beginning of a session.
SOURCE: server.c:497-538 -/
theorem phase_startSession (input : SessionInput) :
    Outcome (fun t => phase t.conn.trace = some .prompted) (fun t => ¬ AllSent t.conn.trace)
      (startSession input) := by
  refine outcome_startSession (fun s => phase s.conn.trace = some .greeting ∧ goesOn s)
    ⟨rfl, show 0 < maxGuessesCount ∧ 0 < secretCodeLen by decide⟩ ?_ ?_
  · intro s text _ hs
    refine ((phase_send hs.1 rfl).and (sameGame_send s _ _)).mono (fun t ht => ⟨ht.1, ?_⟩)
      fun t ht => ht.1
    unfold goesOn
    rw [ht.2.guesses, ht.2.positions]
    exact hs.2
  · intro s hs
    unfold nextGuess
    rw [if_pos (show _ ∧ _ from hs.2)]
    exact phase_send hs.1 rfl

/-! ## Numbers -/

/-- The number of messages that ask for a guess: requests, and notices of invalid guesses. -/
def promptsCount (sent : List GpMessage) : ℕ :=
  sent.countP fun message => message.1 = .guessReq ∨ message.1 = .guessInv

/-- The number of messages that answer a guess: feedback, and notices of invalid guesses. -/
def answersCount (sent : List GpMessage) : ℕ :=
  sent.countP fun message => message.1 = .guessFbk ∨ message.1 = .guessInv

theorem promptsCount_append (sent sent' : List GpMessage) :
    promptsCount (sent ++ sent') = promptsCount sent + promptsCount sent' :=
  List.countP_append

theorem answersCount_append (sent sent' : List GpMessage) :
    answersCount (sent ++ sent') = answersCount sent + answersCount sent' :=
  List.countP_append

/-- What the phase says about the events that led to it. -/
structure Tallies (events : List ServerEvent) (p : Phase) : Prop where
  prompts : promptsCount (messages events) =
    (checked events).length + if p = .prompted then 1 else 0
  answers : promptsCount (messages events) =
    answersCount (messages events) + if p = .prompted ∨ p = .received then 1 else 0
  win : .count .clientsWinCount 1 ∈ events ↔ p = .won ∨ p = .told true
  loss : .log .failureGameOver ∈ events ↔ p = .lost ∨ p = .told false
  success : .gameSucc ∈ (messages events).map Prod.fst ↔ p = .told true
  failure : .gameFail ∈ (messages events).map Prod.fst ↔ p = .told false
  full : .servFull ∉ (messages events).map Prod.fst

/-- INTERNAL: one event more, by what it adds and what phase it leads to. -/
theorem Tallies.append {events : List ServerEvent} {p q : Phase} {event : ServerEvent}
    (h : Tallies events p)
    (hprompts : promptsCount (messages [event]) + (if p = .prompted then 1 else 0) =
      (checked [event]).length + if q = .prompted then 1 else 0)
    (hanswers : promptsCount (messages [event]) +
        (if p = .prompted ∨ p = .received then 1 else 0) =
      answersCount (messages [event]) + if q = .prompted ∨ q = .received then 1 else 0)
    (hwin : (q = .won ∨ q = .told true) ↔
      (p = .won ∨ p = .told true) ∨ .count .clientsWinCount 1 = event)
    (hloss : (q = .lost ∨ q = .told false) ↔
      (p = .lost ∨ p = .told false) ∨ .log .failureGameOver = event)
    (hsuccess : q = .told true ↔
      p = .told true ∨ .gameSucc ∈ (messages [event]).map Prod.fst)
    (hfailure : q = .told false ↔
      p = .told false ∨ .gameFail ∈ (messages [event]).map Prod.fst)
    (hfull : .servFull ∉ (messages [event]).map Prod.fst) :
    Tallies (events ++ [event]) q := by
  have hchecked : checked (events ++ [event]) = checked events ++ checked [event] :=
    List.filterMap_append
  have hold := h.prompts
  have hold' := h.answers
  constructor
  · rw [messages_append, hchecked, promptsCount_append, List.length_append]
    omega
  · rw [messages_append, promptsCount_append, answersCount_append]
    omega
  · rw [List.mem_append, List.mem_singleton, h.win, hwin]
  · rw [List.mem_append, List.mem_singleton, h.loss, hloss]
  · rw [messages_append, List.map_append, List.mem_append, h.success, hsuccess]
  · rw [messages_append, List.map_append, List.mem_append, h.failure, hfailure]
  · rw [messages_append, List.map_append, List.mem_append, not_or]
    exact ⟨h.full, hfull⟩

theorem promptsCount_singleton (message : GpMessage) :
    promptsCount [message] = if message.1 = .guessReq ∨ message.1 = .guessInv then 1 else 0 := by
  simp only [promptsCount, List.countP_singleton, decide_eq_true_eq]

theorem answersCount_singleton (message : GpMessage) :
    answersCount [message] = if message.1 = .guessFbk ∨ message.1 = .guessInv then 1 else 0 := by
  simp only [answersCount, List.countP_singleton, decide_eq_true_eq]

/-- INTERNAL: a message sent in its phase adds as much to the tallies as the phase says. -/
theorem onSend_adds {p q : Phase} {msgType : GpMessageType} (h : p.onSend msgType = some q) :
    ((if msgType = .guessReq ∨ msgType = .guessInv then 1 else 0) +
        (if p = .prompted then 1 else 0) = if q = .prompted then 1 else 0) ∧
      ((if msgType = .guessReq ∨ msgType = .guessInv then 1 else 0) +
          (if p = .prompted ∨ p = .received then 1 else 0) =
        (if msgType = .guessFbk ∨ msgType = .guessInv then 1 else 0) +
          if q = .prompted ∨ q = .received then 1 else 0) ∧
      ((q = .won ∨ q = .told true) ↔ (p = .won ∨ p = .told true)) ∧
      ((q = .lost ∨ q = .told false) ↔ (p = .lost ∨ p = .told false)) ∧
      (q = .told true ↔ p = .told true ∨ .gameSucc = msgType) ∧
      (q = .told false ↔ p = .told false ∨ .gameFail = msgType) ∧ .servFull ≠ msgType := by
  unfold Phase.onSend at h
  split at h <;> cases h <;> decide

/-- INTERNAL: the phase keeps the tallies.
SOURCE: server.c:527-608 -/
theorem Tallies.step {events : List ServerEvent} {p q : Phase} {event : ServerEvent}
    (h : Tallies events p) (hstep : p.advance event = some q) : Tallies (events ++ [event]) q := by
  -- an event that the automaton does not look at adds nothing
  have hsilent : messages [event] = [] → checked [event] = [] → .count .clientsWinCount 1 ≠ event →
      .log .failureGameOver ≠ event → some p = some q → Tallies (events ++ [event]) q := by
    intro hmessages hchecked hwin hloss hq
    obtain rfl := Option.some.inj hq
    apply h.append <;> simp [hmessages, hchecked, hwin, hloss, promptsCount, answersCount]
  cases event with
  | lock mutex => exact hsilent rfl rfl (by simp) (by simp) hstep
  | unlock mutex => exact hsilent rfl rfl (by simp) (by simp) hstep
  | receive stored result => exact hsilent rfl rfl (by simp) (by simp) hstep
  | close => exact hsilent rfl rfl (by simp) (by simp) hstep
  | check buffer =>
    simp only [Phase.advance, Option.ite_none_right_eq_some, Option.some.injEq] at hstep
    obtain ⟨rfl, rfl⟩ := hstep
    apply h.append <;> simp [messages, checked, promptsCount, answersCount]
  | count counter change =>
    cases counter with
    | clientsNowCount => exact hsilent rfl rfl (by simp) (by simp) hstep
    | clientsCount => exact hsilent rfl rfl (by simp) (by simp) hstep
    | clientsWinCount =>
      simp only [Phase.advance, Option.ite_none_right_eq_some, Option.some.injEq] at hstep
      obtain ⟨⟨rfl, rfl⟩, rfl⟩ := hstep
      apply h.append <;> simp [messages, checked, promptsCount, answersCount]
  | log line =>
    by_cases hline : line = .failureGameOver
    · subst hline
      simp only [Phase.advance, Option.ite_none_right_eq_some, Option.some.injEq] at hstep
      obtain ⟨rfl, rfl⟩ := hstep
      apply h.append <;> simp [messages, checked, promptsCount, answersCount]
    · refine hsilent rfl rfl (by simp) (by simpa using Ne.symm hline) ?_
      rw [← hstep]
      cases line with
      | failureGameOver => exact absurd rfl hline
      | _ => rfl
  | send msgType msgPayload result =>
    have hone : messages [.send msgType msgPayload result] = [(msgType, msgPayload)] := rfl
    have hnone : checked [.send msgType msgPayload result] = [] := rfl
    obtain ⟨hprompts, hanswers, hwin, hloss, hsuccess, hfailure, hfull⟩ :=
      onSend_adds (show p.onSend msgType = some q from hstep)
    apply h.append
    · rw [hone, hnone, promptsCount_singleton, hprompts, List.length_nil, Nat.zero_add]
    · rw [hone, promptsCount_singleton, answersCount_singleton, hanswers]
    · exact hwin.trans (or_iff_left (by simp)).symm
    · exact hloss.trans (or_iff_left (by simp)).symm
    · rw [hone, List.map_singleton, List.mem_singleton, hsuccess]
    · rw [hone, List.map_singleton, List.mem_singleton, hfailure]
    · rw [hone, List.map_singleton, List.mem_singleton]
      exact hfull

/-- What the phase says about any beginning of a trace that follows the automaton. -/
theorem tallies_of_phase {events : List ServerEvent} {p : Phase} (h : phase events = some p) :
    Tallies events p := by
  induction events using List.reverseRecOn generalizing p with
  | nil =>
    cases h
    constructor <;> simp [messages, checked, promptsCount, answersCount]
  | append_singleton events event ih =>
    rw [phase_append, Option.bind_eq_some_iff] at h
    obtain ⟨q, hq, hstep⟩ := h
    exact (ih hq).step (by simpa using hstep)

/-- INTERNAL: any beginning of the messages is what some beginning of the trace has sent. -/
theorem exists_take_messages (trace : List ServerEvent) (n : ℕ) :
    ∃ k, messages (trace.take k) = (messages trace).take n := by
  induction trace generalizing n with
  | nil => exact ⟨0, by simp [messages]⟩
  | cons event trace ih =>
    have hcons : ∀ events, messages (event :: events) = messages [event] ++ messages events :=
      fun events => messages_append [event] events
    cases n with
    | zero => exact ⟨0, rfl⟩
    | succ n =>
      by_cases hsent : messages [event] = []
      · obtain ⟨k, hk⟩ := ih (n + 1)
        exact ⟨k + 1, by rw [List.take_succ_cons, hcons (trace.take k), hcons trace, hsent, hk]; rfl⟩
      · obtain ⟨message, hone⟩ : ∃ message, messages [event] = [message] := by
          cases event with
          | send msgType msgPayload result => exact ⟨_, rfl⟩
          | _ => exact absurd rfl hsent
        obtain ⟨k, hk⟩ := ih n
        exact ⟨k + 1, by rw [List.take_succ_cons, hcons (trace.take k), hcons trace, hone, hk]; rfl⟩

end Comp30023.Interface
