import Comp30023.Interface.SessionGame

/-!
# What the client of a session gets to see

The messages a session sends and the guesses it finds valid, read off its trace. The parts of
`pthread_routine` are described by the messages they add, as long as all messages are sent.
-/

set_option autoImplicit false

namespace Comp30023.Interface

open Comp30023.Library Comp30023.Model

/-- A message of the protocol, before it is composed. -/
abbrev GpMessage := GpMessageType × Option (List UInt8)

/-- The messages that were sent, in order. -/
def messages (trace : List ServerEvent) : List GpMessage :=
  trace.filterMap fun
    | .send msgType msgPayload _ => some (msgType, msgPayload)
    | _ => none

/-- The event is no call of `send_message` that failed. -/
def isSent : ServerEvent → Bool
  | .send _ _ result => result = gpSize
  | _ => true

/-- All messages were sent. -/
def AllSent (trace : List ServerEvent) : Prop := ∀ event ∈ trace, isSent event = true

instance decidableAllSent (trace : List ServerEvent) : Decidable (AllSent trace) :=
  inferInstanceAs (Decidable (∀ event ∈ trace, isSent event = true))

/-- The payloads of the messages with feedback. -/
def feedbackPayloads (sent : List GpMessage) : List (Option (List UInt8)) :=
  sent.filterMap fun
    | (.guessFbk, msgPayload) => some msgPayload
    | _ => none

/-- The guesses that were valid, in order. -/
def guesses (trace : List ServerEvent) : List (List UInt8) :=
  (checked trace).filter fun buffer => isValidSecretCode buffer

theorem feedbackPayloads_append (sent sent' : List GpMessage) :
    feedbackPayloads (sent ++ sent') = feedbackPayloads sent ++ feedbackPayloads sent' :=
  List.filterMap_append

theorem messages_append (trace events : List ServerEvent) :
    messages (trace ++ events) = messages trace ++ messages events :=
  List.filterMap_append

/-- INTERNAL: the guesses depend on what was checked only. -/
theorem guesses_of_sameGame {s t : Session} (h : SameGame s t) :
    guesses t.conn.trace = guesses s.conn.trace := by
  unfold guesses
  rw [h.checked]

/-- INTERNAL: the guesses when a buffer is about to be checked. -/
theorem guesses_afterReceive (r : Received) (s : Session) :
    guesses (afterReceive r s).conn.trace =
      guesses s.conn.trace ++ if isValidSecretCode r.buf then [r.buf] else [] := by
  have hchecked : checked (afterReceive r s).conn.trace = checked s.conn.trace ++ [r.buf] := by
    simp [afterReceive, Session.record, Connection.record, checked]
  unfold guesses
  rw [hchecked, List.filter_append]
  congr 1
  split_ifs with hvalid
  · exact List.filter_cons_of_pos hvalid
  · exact List.filter_cons_of_neg hvalid

theorem messages_afterReceive (r : Received) (s : Session) :
    messages (afterReceive r s).conn.trace = messages s.conn.trace := by
  simp [afterReceive, Session.record, Connection.record, messages]

/-! ## The parts of a session -/

/-- From `s` to `t` the game has not moved, and these messages were sent. -/
structure Says (s : Session) (sent : List GpMessage) (t : Session) : Prop where
  game : SameGame s t
  messages : messages t.conn.trace = messages s.conn.trace ++ sent

theorem Says.trans {s t u : Session} {sent sent' : List GpMessage} (h : Says s sent t)
    (h' : Says t sent' u) : Says s (sent ++ sent') u :=
  ⟨h.game.trans h'.game, by rw [h'.messages, h.messages, List.append_assoc]⟩

/-- INTERNAL: events that are neither messages nor moves. -/
theorem says_record (s : Session) {events : List ServerEvent} (hscored : scored events = [])
    (hchecked : checked events = []) (hmessages : Interface.messages events = []) :
    Says s [] (s.record events) := by
  refine ⟨sameGame_record s hscored hchecked, ?_⟩
  show Interface.messages (s.conn.trace ++ events) = _
  rw [messages_append, hmessages]

/-- INTERNAL: a message is sent, or the client does not get all messages.
SOURCE: server.c:193-257 -/
theorem sent_send (s : Session) (msgType : GpMessageType) (msgPayload : Option (List UInt8)) :
    Outcome (fun t => t.conn.trace = s.conn.trace ++ [.send msgType msgPayload gpSize])
      (fun t => ¬ AllSent t.conn.trace) (s.send msgType msgPayload) := by
  rcases send_cases s msgType msgPayload with ⟨-, hok, htrace⟩ |
    ⟨-, result, events, hresult, -, herror, htrace⟩
  · rw [hok]
    exact htrace
  · rw [herror]
    intro hall
    have hmem : .send msgType msgPayload result ∈
        ((afterSend s msgType msgPayload).record events).conn.trace := by
      refine List.mem_append_left _ ?_
      rw [htrace]
      exact List.mem_append_right _ List.mem_cons_self
    exact hresult (of_decide_eq_true (hall _ hmem))

/-- INTERNAL: sending a message, as seen by the client. -/
theorem says_send (s : Session) (msgType : GpMessageType) (msgPayload : Option (List UInt8)) :
    Outcome (Says s [(msgType, msgPayload)]) (fun t => ¬ AllSent t.conn.trace)
      (s.send msgType msgPayload) := by
  refine ((sameGame_send s msgType msgPayload).and (sent_send s msgType msgPayload)).mono
    (fun t ht => ⟨ht.1, ?_⟩) fun t ht => ht.2
  rw [ht.2, messages_append]
  rfl

/-- INTERNAL: a message after some events. -/
theorem says_record_send (s : Session) {events : List ServerEvent} (msgType : GpMessageType)
    (hscored : scored events = []) (hchecked : checked events = [])
    (hmessages : messages events = []) :
    Outcome (Says s [(msgType, none)]) (fun t => ¬ AllSent t.conn.trace)
      ((s.record events).send msgType none) :=
  (says_send _ _ _).mono (fun _ ht => (says_record s hscored hchecked hmessages).trans ht)
    fun _ ht => ht

/-- The message at the end of a game.
SOURCE: server.c:583-608 -/
def verdictMessage (s : Session) : GpMessage :=
  (if s.correctPositionsCount = secretCodeLen then .gameSucc else .gameFail, none)

/-- INTERNAL: the end of the game.
SOURCE: server.c:583-622 -/
theorem says_gameOver (s : Session) :
    Outcome (fun _ => False) (fun t => AllSent t.conn.trace → Says s [verdictMessage s] t)
      (gameOver s) := by
  have hverdict : Outcome (Says s [verdictMessage s]) (fun t => ¬ AllSent t.conn.trace)
      (verdict s) := by
    unfold verdict verdictMessage
    split_ifs
    · exact says_record_send s _ rfl rfl rfl
    · exact says_record_send s _ rfl rfl rfl
  unfold gameOver
  apply (hverdict.mono (fun t ht => ht) fun t ht hall => absurd hall ht).bind
  intro t ht _
  exact ht.trans (says_record t rfl rfl rfl)

/-- The game goes on after this many guesses, with this many correct positions in the last.
SOURCE: server.c:535 -/
def goesOn (s : Session) : Prop :=
  s.guessesCount < maxGuessesCount ∧ s.correctPositionsCount < secretCodeLen

/-- INTERNAL: on to the next guess or to the end.
SOURCE: server.c:535-538 -/
theorem says_nextGuess (s : Session) :
    Outcome (fun t => goesOn s ∧ Says s [(.guessReq, none)] t)
      (fun t => AllSent t.conn.trace → ¬ goesOn s ∧ Says s [verdictMessage s] t)
      (nextGuess s) := by
  unfold nextGuess
  split_ifs with hgo
  · exact (says_send s _ _).mono (fun t ht => ⟨hgo, ht⟩) fun t ht hall => absurd hall ht
  · exact (says_gameOver s).mono (fun t ht => ht.elim) fun t ht hall => ⟨hgo, ht hall⟩

/-- INTERNAL: scoring a guess.
SOURCE: server.c:555-580 -/
theorem says_scoreGuess (s : Session) :
    Outcome
      (fun t => Scores s t ∧ messages t.conn.trace =
        messages s.conn.trace ++ [(.guessFbk, some (feedbackPayload s))])
      (fun t => ¬ AllSent t.conn.trace) (scoreGuess s) := by
  have hmessages : Outcome (fun t => messages t.conn.trace =
      messages s.conn.trace ++ [(.guessFbk, some (feedbackPayload s))])
      (fun t => ¬ AllSent t.conn.trace) (scoreGuess s) := by
    rw [scoreGuess_eq]
    apply Outcome.bind (says_send _ _ _)
    intro t ht
    show messages t.conn.trace = _
    rw [ht.messages]
    show messages (s.conn.trace ++ _) ++ _ = _
    rw [messages_append]
    simp [messages]
  exact ((scores_scoreGuess s).and hmessages).mono (fun t ht => ht) fun t ht => ht.2

/-! ## Sockets that take everything -/

/-- The socket of the session takes everything, and has taken everything so far. -/
structure Clear (s : Session) : Prop where
  writes : s.conn.writes = []
  sent : AllSent s.conn.trace

/-- INTERNAL: what is recorded is no message that failed. -/
theorem Clear.record {s : Session} (h : Clear s) {events : List ServerEvent}
    (hevents : AllSent events) : Clear (s.record events) := by
  refine ⟨h.writes, fun event hmem => ?_⟩
  rcases List.mem_append.mp hmem with hold | hnew
  · exact h.sent event hold
  · exact hevents event hnew

/-- INTERNAL: a message is sent.
SOURCE: server.c:193-257 -/
theorem Clear.send {s : Session} (h : Clear s) (msgType : GpMessageType)
    (msgPayload : Option (List UInt8)) :
    Outcome Clear (fun _ => False) (s.send msgType msgPayload) := by
  obtain ⟨t, ht, hwrites, -⟩ := send_of_nil h.writes msgType msgPayload
  have htrace := sent_send s msgType msgPayload
  rw [ht] at htrace ⊢
  refine ⟨hwrites, fun event hmem => ?_⟩
  rw [show t.conn.trace = _ from htrace] at hmem
  rcases List.mem_append.mp hmem with hold | hnew
  · exact h.sent event hold
  · rw [List.mem_singleton.mp hnew]
    rfl

/-- INTERNAL: on to the next guess, or to the end.
SOURCE: server.c:535-538, 583-622 -/
theorem Clear.nextGuess {s : Session} (h : Clear s) :
    Outcome Clear (fun t => AllSent t.conn.trace) (nextGuess s) := by
  have hverdict : Outcome Clear (fun t => AllSent t.conn.trace) (verdict s) := by
    unfold verdict
    split_ifs
    · exact ((h.record (by decide)).send _ _).mono (fun t ht => ht) fun t ht => ht.elim
    · exact ((h.record (by decide)).send _ _).mono (fun t ht => ht) fun t ht => ht.elim
  unfold Model.nextGuess
  split_ifs
  · exact (h.send _ _).mono (fun t ht => ht) fun t ht => ht.elim
  · exact hverdict.bind fun t ht => (ht.record (by decide)).sent

/-- INTERNAL: what a guess leads to.
SOURCE: server.c:543-581 -/
theorem Clear.checkGuess {s : Session} (h : Clear s) (r : Received) :
    Outcome Clear (fun t => AllSent t.conn.trace) (checkGuess r s) := by
  have hreceived : Clear (afterReceive r s) :=
    Clear.record (s := { s with conn.buffer := r.buf }) ⟨h.writes, h.sent⟩ (by simp [AllSent, isSent])
  rw [checkGuess_eq]
  split_ifs
  · have hlogged : Clear (logGuess (afterReceive r s)) :=
      hreceived.record (by simp [AllSent, isSent])
    have hscore : Outcome Clear (fun t => AllSent t.conn.trace) (scoreGuess (afterReceive r s)) := by
      rw [scoreGuess_eq]
      refine Outcome.bind ?_ fun t (ht : Clear t) => ⟨ht.writes, ht.sent⟩
      apply Outcome.mono (Clear.send ?_ _ _) (fun t ht => ht) fun t ht => ht.elim
      exact ⟨hlogged.writes, hlogged.sent⟩
    exact hscore.bind fun t ht => ht.nextGuess
  · exact (hreceived.send _ _).mono (fun t ht => ht) fun t ht => ht.elim

/-- INTERNAL: the beginning of a session.
SOURCE: server.c:497-538 -/
theorem clear_startSession {input : SessionInput} (h : input.writes = []) :
    Outcome Clear (fun t => AllSent t.conn.trace) (startSession input) := by
  refine outcome_startSession Clear ⟨h, ?_⟩ ?_ fun s hs => hs.nextGuess
  · simp [openedSession, Session.record, Connection.record, AllSent, isSent,
      incrementClientsNowCount, incrementClientsCount]
  · intro s text _ hs
    exact (hs.send _ _).mono (fun t ht => ht) fun t ht => ht.elim

end Comp30023.Interface
