import Comp30023.Interface.Codes
import Comp30023.Interface.MessageSession
import Comp30023.Interface.SessionRule

/-!
# The game behind a session

The variables of `pthread_routine` that belong to the game, and which parts of it touch them:
sending a message and coming to the next guess leave them alone, scoring a guess adds that
guess and sets the number of its correct positions.
-/

set_option autoImplicit false

namespace Comp30023.Interface

open Comp30023.Library Comp30023.Model

/-- The guesses that were scored, as the server logs them. -/
def scored (trace : List ServerEvent) : List (List UInt8) :=
  trace.filterMap fun
    | .log (.clientGuess guess) => some guess
    | _ => none

/-- The two sessions are at the same point of the same game. -/
structure SameGame (s t : Session) : Prop where
  secret : t.secretCode = s.secretCode
  guesses : t.guessesCount = s.guessesCount
  positions : t.correctPositionsCount = s.correctPositionsCount
  scored : scored t.conn.trace = scored s.conn.trace
  checked : checked t.conn.trace = checked s.conn.trace

/-- The secret of a session is always a valid code.
SOURCE: server.c:515-519 -/
theorem isValid_secretOf (input : SessionInput) : isValidSecretCode (secretOf input) = true := by
  unfold secretOf
  dsimp only
  split_ifs with hvalid
  · exact hvalid
  · exact isValid_getRandomSecretCode input.rand

theorem SameGame.trans {s t u : Session} (h : SameGame s t) (h' : SameGame t u) : SameGame s u :=
  ⟨h'.secret.trans h.secret, h'.guesses.trans h.guesses, h'.positions.trans h.positions,
    h'.scored.trans h.scored, h'.checked.trans h.checked⟩

/-- INTERNAL: events that neither check nor score a guess. -/
theorem sameGame_record (s : Session) {events : List ServerEvent}
    (hscored : Interface.scored events = []) (hchecked : Interface.checked events = []) :
    SameGame s (s.record events) := by
  refine ⟨rfl, rfl, rfl, ?_, checked_record hchecked⟩
  show Interface.scored (s.conn.trace ++ events) = Interface.scored s.conn.trace
  unfold Interface.scored at hscored ⊢
  rw [List.filterMap_append, hscored, List.append_nil]

/-- INTERNAL: sending a message is no move in the game.
SOURCE: server.c:193-257 -/
theorem sameGame_send (s : Session) (msgType : GpMessageType)
    (msgPayload : Option (List UInt8)) :
    Outcome (SameGame s) (SameGame s) (s.send msgType msgPayload) := by
  have hsent : SameGame s (afterSend s msgType msgPayload) := by
    refine ⟨rfl, rfl, rfl, ?_, ?_⟩
    · simp [afterSend, Interface.scored]
    · simp [afterSend, Interface.checked]
  rcases send_cases s msgType msgPayload with ⟨-, hok, -⟩ | ⟨-, -, events, -, hevents, herror, -⟩
  · rw [hok]
    exact hsent
  · rw [herror]
    refine hsent.trans (sameGame_record _ ?_ ?_)
    · rcases hevents with rfl | rfl <;> rfl
    · rcases hevents with rfl | rfl <;> rfl

/-- INTERNAL: nor is the end of the game.
SOURCE: server.c:583-622 -/
theorem sameGame_gameOver (s : Session) :
    Outcome (fun _ => False) (SameGame s) (gameOver s) := by
  have hverdict : Outcome (SameGame s) (SameGame s) (verdict s) := by
    have hsend : ∀ events msgType, Interface.scored events = [] → Interface.checked events = [] →
        Outcome (SameGame s) (SameGame s) ((s.record events).send msgType none) := by
      intro events msgType hscored hchecked
      have hrecord := sameGame_record s hscored hchecked
      exact (sameGame_send _ _ _).mono (fun t ht => hrecord.trans ht) fun t ht => hrecord.trans ht
    unfold verdict
    split_ifs
    · exact hsend _ _ rfl rfl
    · exact hsend _ _ rfl rfl
  exact hverdict.bind fun t ht => ht.trans (sameGame_record t rfl rfl)

/-- INTERNAL: nor is the request for another guess.
SOURCE: server.c:535-538 -/
theorem sameGame_nextGuess (s : Session) :
    Outcome (SameGame s) (SameGame s) (nextGuess s) := by
  unfold nextGuess
  split_ifs
  · exact sameGame_send s _ _
  · exact (sameGame_gameOver s).mono (fun t ht => ht.elim) fun t ht => ht

/-- The feedback on what is in the buffer. -/
def feedbackOf (s : Session) : Feedback :=
  getSecretCodeGuessFeedback (codeOf s.secretCode) (codeOf s.conn.buffer)

/-- The session `t` has scored what was in the buffer of `s`. -/
structure Scores (s t : Session) : Prop where
  secret : t.secretCode = s.secretCode
  guesses : t.guessesCount = s.guessesCount + 1
  positions : t.correctPositionsCount = (feedbackOf s).correctPositionsCount
  scored : Interface.scored t.conn.trace =
    Interface.scored s.conn.trace ++ [cString s.conn.buffer]
  checked : Interface.checked t.conn.trace = Interface.checked s.conn.trace

/-- The session after it has logged the guess in its buffer and the feedback on it.
SOURCE: server.c:555-568 -/
def logGuess (s : Session) : Session :=
  s.record [.lock .logFile, .log (.clientGuess (cString s.conn.buffer)),
    .log (.serverHint (feedbackOf s).correctPositionsCount (feedbackOf s).correctColorsCount),
    .unlock .logFile]

/-- The payload with the feedback on what is in the buffer.
SOURCE: server.c:561-577 -/
def feedbackPayload (s : Session) : List UInt8 :=
  feedbackMessage (s.guessesCount + 1) (feedbackOf s).correctPositionsCount
    (feedbackOf s).correctColorsCount

/-- INTERNAL: a guess is logged and scored, the feedback is sent, and then the guess counts.
SOURCE: server.c:555-580 -/
theorem scoreGuess_eq (s : Session) :
    scoreGuess s =
      (Session.send
        { logGuess s with
          correctPositionsCount := (feedbackOf s).correctPositionsCount
          correctColorsCount := (feedbackOf s).correctColorsCount }
        .guessFbk (some (feedbackPayload s)) >>=
      fun t => .ok { t with guessesCount := t.guessesCount + 1 }) := rfl

/-- Scoring a guess, unless the feedback cannot be sent.
SOURCE: server.c:555-580 -/
theorem scores_scoreGuess (s : Session) :
    Outcome (Scores s) (fun _ => True) (scoreGuess s) := by
  rw [scoreGuess_eq]
  refine Outcome.bind ((sameGame_send _ _ _).mono (fun t ht => ht) fun _ _ => trivial)
    fun t ht => ?_
  refine ⟨ht.secret, congrArg (· + 1) ht.guesses, ht.positions, ?_, ?_⟩
  · rw [show Interface.scored _ = _ from ht.scored]
    simp [logGuess, Session.record, Connection.record, Interface.scored]
  · rw [show Interface.checked _ = _ from ht.checked]
    simp [logGuess, Session.record, Connection.record, Interface.checked]

/-- The session after a call of `receive_message`, when its buffer is about to be checked.
SOURCE: server.c:546-548 -/
def afterReceive (r : Received) (s : Session) : Session :=
  Session.record { s with conn.buffer := r.buf }
    [.receive r.rcvdMsgSize (r.result gpSize), .check r.buf]

/-- INTERNAL: the two ways on from a call of `receive_message`.
SOURCE: server.c:547-552 -/
theorem checkGuess_eq (r : Received) (s : Session) :
    checkGuess r s =
      if isValidSecretCode r.buf then scoreGuess (afterReceive r s) >>= nextGuess
      else (afterReceive r s).send .guessInv none := rfl

/-- INTERNAL: a guess is logged before anything else is done with it.
SOURCE: server.c:555-580 -/
theorem follows_scoreGuess (s : Session) :
    Outcome (Follows (logGuess s)) (Follows (logGuess s)) (scoreGuess s) := by
  have hsent := fun t : Session => (replies_send t .guessFbk (some (feedbackPayload s))).mono
    (fun _ hu => hu.follows) fun _ hu => hu.follows
  rw [scoreGuess_eq]
  exact Outcome.bind (hsent _) fun t ht => ht

/-- What follows a call of `receive_message` and the check of its buffer.
SOURCE: server.c:547-581 -/
theorem replies_checkGuess (r : Received) (s : Session) :
    Outcome (Replies (afterReceive r s)) (Replies (afterReceive r s)) (checkGuess r s) := by
  rw [checkGuess_eq]
  split_ifs
  · apply (replies_scoreGuess (afterReceive r s)).bind
    intro t ht
    exact ht.bind (replies_nextGuess t)
  · exact replies_send _ _ _

/-- What a guess leads to comes after what has been done before.
SOURCE: server.c:543-581 -/
theorem follows_checkGuess (r : Received) (s : Session) :
    Outcome (Follows s) (Follows s) (checkGuess r s) := by
  have hreceived : Follows s (afterReceive r s) := ⟨_, rfl⟩
  exact (replies_checkGuess r s).mono (fun t ht => hreceived.trans ht.follows)
    fun t ht => hreceived.trans ht.follows

end Comp30023.Interface
