import Comp30023.Library.Outcome
import Comp30023.Model.Server

/-!
# A rule for session threads

Everything `pthread_routine` does is made of calls of `send_gp_message`, `receive_message`
and events of its own. `send_cases` says once what a call of `send_gp_message` can do, and
when; `outcome_pthreadRoutine` carries an invariant of the sessions that wait for a guess
through a whole run. Statements about sessions are proved from these two.
-/

set_option autoImplicit false

namespace Comp30023.Interface

open Comp30023.Library Comp30023.Model

/-! ## Writes that take a message -/

/-- The peer takes `n` bytes within so many writes: none of them meets `EPIPE`, and together
they take enough. -/
def TakesWithin : ℕ → ℕ → List WriteOutcome → Prop
  | _, 0, _ => False
  | _, _ + 1, [] => True
  | n, attempts + 1, .accept m :: rest => n ≤ m ∨ TakesWithin (n - m) attempts rest
  | _, _ + 1, .epipe :: _ => False
  | n, attempts + 1, .error :: rest => TakesWithin n attempts rest

instance decidableTakesWithin :
    ∀ (n attempts : ℕ) (writes : List WriteOutcome), Decidable (TakesWithin n attempts writes)
  | _, 0, _ => inferInstanceAs (Decidable False)
  | _, _ + 1, [] => inferInstanceAs (Decidable True)
  | n, attempts + 1, .accept m :: rest =>
    have := decidableTakesWithin (n - m) attempts rest
    inferInstanceAs (Decidable (n ≤ m ∨ TakesWithin (n - m) attempts rest))
  | _, _ + 1, .epipe :: _ => inferInstanceAs (Decidable False)
  | n, attempts + 1, .error :: rest => decidableTakesWithin n attempts rest

/-- INTERNAL: what the loop of `send_message` comes to.
SOURCE: message-helpers.c:48-64 -/
theorem sendLoop_takes (msg : List UInt8) {msgSize : ℕ} (attempts : ℕ) (s : Sent)
    (hlost : s.isConnLost = false) (hsent : s.sentMsgSize < msgSize) :
    ((sendLoop msg msgSize attempts s).isConnLost = false ∧
        (sendLoop msg msgSize attempts s).sentMsgSize = msgSize) ↔
      TakesWithin (msgSize - s.sentMsgSize) attempts s.writes := by
  induction attempts generalizing s with
  | zero =>
    simp only [sendLoop, TakesWithin, iff_false]
    omega
  | succ attempts ih =>
    obtain ⟨sent, isLost, written, writes⟩ := s
    simp only at hlost hsent
    subst hlost
    have hleft : 0 < msgSize - sent := by omega
    have htaken : sent + (msgSize - sent) = msgSize := by omega
    cases writes with
    | nil => simp [sendLoop, write, TakesWithin, htaken, hleft]
    | cons outcome rest =>
      cases outcome with
      | epipe => simp [sendLoop, write, TakesWithin]
      | error =>
        simp only [sendLoop, write, TakesWithin]
        simpa [hsent] using ih ⟨sent, false, written, rest⟩ rfl hsent
      | accept m =>
        simp only [sendLoop, write, TakesWithin]
        by_cases hm : m = 0
        · subst hm
          simpa [hsent, hleft.ne'] using ih ⟨sent, false, written, rest⟩ rfl hsent
        · have hpos : 0 < min m (msgSize - sent) := by omega
          by_cases hle : msgSize - sent ≤ m
          · simp [hle, hleft, htaken]
          · have hmin : min m (msgSize - sent) = m := by omega
            have hlt : sent + m < msgSize := by omega
            have hsub : msgSize - (sent + m) = msgSize - sent - m := by omega
            have hstep := ih ⟨sent + m, false, written ++ (msg.drop sent).take m, rest⟩ rfl hlt
            rw [hsub] at hstep
            simpa [hmin, hpos, hle, hlt, Nat.pos_of_ne_zero hm] using hstep

/-- `send_message` returns the size of the message exactly if the peer takes it in few enough
writes.
SOURCE: message-helpers.c:44-73 -/
theorem sendMessage_result (msg : List UInt8) (writes : List WriteOutcome) :
    ((sendMessage msg gpSize writes).result gpSize = gpSize ↔
        TakesWithin gpSize writeAttemptsMaxCount writes) ∧
      ((sendMessage msg gpSize writes).result gpSize = gpSize ∨
        (sendMessage msg gpSize writes).result gpSize = writeConnLostError ∨
        (sendMessage msg gpSize writes).result gpSize = writeOtherError) := by
  have htakes := sendLoop_takes msg writeAttemptsMaxCount
    { sentMsgSize := 0, isConnLost := false, written := [], writes := writes } rfl
    (show 0 < gpSize by decide)
  rw [Nat.sub_zero] at htakes
  rw [← htakes]
  change (_ ↔ (sendMessage msg gpSize writes).isConnLost = false ∧
    (sendMessage msg gpSize writes).sentMsgSize = gpSize) ∧ _
  generalize sendMessage msg gpSize writes = sent
  unfold Sent.result
  cases sent.isConnLost with
  | true => exact ⟨by simp [writeConnLostError, gpSize], Or.inr (Or.inl rfl)⟩
  | false =>
    by_cases hsize : sent.sentMsgSize = gpSize
    · simp [hsize]
    · rw [if_neg (by simp), if_neg hsize]
      exact ⟨iff_of_false (by decide) fun h => hsize h.2, Or.inr (Or.inr rfl)⟩

/-! ## Sending -/

/-- What `send_gp_message` does when the connection is lost.
SOURCE: server.c:218-230 -/
def connLostEvents : List ServerEvent :=
  [.lock .logFile, .log .clientConnectionLost, .unlock .logFile, .close] ++ decrementClientsNowCount

/-- What `send_gp_message` does when the message could not be sent.
SOURCE: server.c:234-253 -/
def sendFailedEvents : List ServerEvent :=
  [.lock .logFile, .log .serverFailedToSend, .close, .log .clientDisconnected, .unlock .logFile]
    ++ decrementClientsNowCount

/-- The session after the call of `send_message` in `send_gp_message`. -/
def afterSend (s : Session) (msgType : GpMessageType) (msgPayload : Option (List UInt8)) :
    Session :=
  let buffer := composeGpMessage msgType msgPayload
  let sent := sendMessage buffer gpSize s.conn.writes
  { s with conn :=
    { buffer := buffer
      writes := sent.writes
      trace := s.conn.trace ++ [.send msgType msgPayload (sent.result gpSize)] } }

/-- What a call of `send_gp_message` can do: the message is sent and the thread goes on, or
the thread ends in one of two ways.
SOURCE: server.c:193-257 -/
theorem send_cases (s : Session) (msgType : GpMessageType) (msgPayload : Option (List UInt8)) :
    (TakesWithin gpSize writeAttemptsMaxCount s.conn.writes ∧
      s.send msgType msgPayload = .ok (afterSend s msgType msgPayload) ∧
      (afterSend s msgType msgPayload).conn.trace =
        s.conn.trace ++ [.send msgType msgPayload gpSize]) ∨
    (¬ TakesWithin gpSize writeAttemptsMaxCount s.conn.writes ∧
      ∃ (result : ℤ) (events : List ServerEvent), result ≠ gpSize ∧
        (events = connLostEvents ∨ events = sendFailedEvents) ∧
        s.send msgType msgPayload = .error ((afterSend s msgType msgPayload).record events) ∧
        (afterSend s msgType msgPayload).conn.trace =
          s.conn.trace ++ [.send msgType msgPayload result]) := by
  obtain ⟨htakes, hresults⟩ :=
    sendMessage_result (composeGpMessage msgType msgPayload) s.conn.writes
  rcases hresults with h | h | h
  · refine Or.inl ⟨htakes.mp h, ?_, by simp [afterSend, h]⟩
    unfold Session.send sendGpMessage
    dsimp only
    rw [if_neg (by rw [h]; decide), if_neg (by rw [h]; decide)]
    rfl
  · refine Or.inr ⟨fun hw => ?_, writeConnLostError, connLostEvents, by decide, Or.inl rfl, ?_,
      by simp [afterSend, h]⟩
    · rw [htakes.mpr hw] at h
      revert h
      decide
    · unfold Session.send sendGpMessage
      dsimp only
      rw [if_pos h]
      rfl
  · refine Or.inr ⟨fun hw => ?_, writeOtherError, sendFailedEvents, by decide, Or.inr rfl, ?_,
      by simp [afterSend, h]⟩
    · rw [htakes.mpr hw] at h
      revert h
      decide
    · unfold Session.send sendGpMessage
      dsimp only
      rw [if_neg (by rw [h]; decide), if_pos h]
      rfl

/-! ## Growing traces -/

/-- `t` comes after `s`: it has done what `s` has done, and maybe more. -/
def Follows (s t : Session) : Prop := s.conn.trace <+: t.conn.trace

theorem Follows.trans {s t u : Session} (h : Follows s t) (h' : Follows t u) : Follows s u :=
  List.IsPrefix.trans h h'

/-- The event takes something in: a call of `receive_message`, or a check of what it left. -/
def isIntake : ServerEvent → Bool
  | .receive _ _ => true
  | .check _ => true
  | _ => false

/-- From `s` to `t` the thread has taken in nothing. -/
def Replies (s t : Session) : Prop :=
  ∃ events, t.conn.trace = s.conn.trace ++ events ∧ ∀ event ∈ events, isIntake event = false

theorem Replies.follows {s t : Session} (h : Replies s t) : Follows s t := by
  obtain ⟨events, htrace, -⟩ := h
  exact ⟨events, htrace.symm⟩

theorem Replies.trans {s t u : Session} (h : Replies s t) (h' : Replies t u) : Replies s u := by
  obtain ⟨events, htrace, hnone⟩ := h
  obtain ⟨events', htrace', hnone'⟩ := h'
  refine ⟨events ++ events', by rw [htrace', htrace, List.append_assoc], ?_⟩
  intro event hevent
  rcases List.mem_append.mp hevent with hfirst | hsecond
  · exact hnone event hfirst
  · exact hnone' event hsecond

/-- INTERNAL: two parts of the thread, one after the other. -/
theorem Replies.bind {s t : Session} (h : Replies s t) {x : Except Session Session}
    (hx : Outcome (Replies t) (Replies t) x) : Outcome (Replies s) (Replies s) x :=
  hx.mono (fun _ hu => h.trans hu) fun _ hu => h.trans hu

/-- INTERNAL: events that take nothing in. -/
theorem replies_record (s : Session) {events : List ServerEvent}
    (h : ∀ event ∈ events, isIntake event = false) : Replies s (s.record events) :=
  ⟨events, rfl, h⟩

/-- Sending a message.
SOURCE: server.c:193-257 -/
theorem replies_send (s : Session) (msgType : GpMessageType)
    (msgPayload : Option (List UInt8)) :
    Outcome (Replies s) (Replies s) (s.send msgType msgPayload) := by
  have hsent : Replies s (afterSend s msgType msgPayload) :=
    ⟨[.send msgType msgPayload _], rfl, by simp [isIntake]⟩
  rcases send_cases s msgType msgPayload with ⟨-, hok, -⟩ |
    ⟨-, result, events, -, hevents, herror, -⟩
  · rw [hok]
    exact hsent
  · rw [herror]
    apply hsent.trans
    apply replies_record
    rcases hevents with rfl | rfl <;> decide

/-- On to the next guess or to the end.
SOURCE: server.c:535-538, 583-622 -/
theorem replies_nextGuess (s : Session) : Outcome (Replies s) (Replies s) (nextGuess s) := by
  have hverdict : Outcome (Replies s) (Replies s) (verdict s) := by
    unfold verdict
    split_ifs
    · exact (replies_record s (by decide)).bind (replies_send _ _ _)
    · exact (replies_record s (by decide)).bind (replies_send _ _ _)
  unfold nextGuess
  split_ifs
  · exact replies_send s _ _
  · apply hverdict.bind
    intro t ht
    exact ht.trans (replies_record t (by decide))

/-- Scoring a guess.
SOURCE: server.c:555-580 -/
theorem replies_scoreGuess (s : Session) : Outcome (Replies s) (Replies s) (scoreGuess s) := by
  unfold scoreGuess
  apply Outcome.bind
  · exact (replies_record s (by simp [isIntake])).bind (replies_send _ _ _)
  · intro t ht
    exact ht

/-! ## Beginning -/

/-- The secret code of a session: the one in its parameter if that is valid, else a random one.
SOURCE: server.c:502, 515-519 -/
def secretOf (input : SessionInput) : List UInt8 :=
  let copy := strncpy input.secretCode (secretCodeLen + 1)
  if isValidSecretCode copy then copy else getRandomSecretCode input.rand

/-- The session before its first message: it has logged the connection, counted itself and
logged its secret.
SOURCE: server.c:497-525 -/
def openedSession (input : SessionInput) : Session :=
  Session.record
    { conn := { buffer := input.stackBuffer, writes := input.writes, trace := [] }
      secretCode := secretOf input, guessesCount := 0, correctPositionsCount := 0
      correctColorsCount := 0 }
    ([.lock .logFile, .log .clientConnected] ++ incrementClientsNowCount ++ incrementClientsCount
      ++ [.log (.serverSecret (cString (secretOf input))), .unlock .logFile])

/-- The texts a session displays at its beginning.
SOURCE: server.c:530-532 -/
def greetings : List (List UInt8) := [welcomeMessage, instructions1Message, instructions2Message]

/-- The rule for the beginning of a session: what its first messages keep, up to its first
request for a guess.
SOURCE: server.c:497-538 -/
theorem outcome_startSession {inv ending : Session → Prop} {input : SessionInput}
    (mid : Session → Prop) (hopened : mid (openedSession input))
    (hsend : ∀ s, ∀ text ∈ greetings, mid s → Outcome mid ending (s.send .dispMsg (some text)))
    (hnext : ∀ s, mid s → Outcome inv ending (nextGuess s)) :
    Outcome inv ending (startSession input) := by
  have heq : startSession input =
      ((openedSession input).send .dispMsg (some welcomeMessage) >>= fun s =>
        s.send .dispMsg (some instructions1Message) >>= fun s =>
          s.send .dispMsg (some instructions2Message) >>= nextGuess) := rfl
  rw [heq]
  apply (hsend _ _ (by simp [greetings]) hopened).bind
  intro s hs
  apply (hsend s _ (by simp [greetings]) hs).bind
  intro s hs
  exact (hsend s _ (by simp [greetings]) hs).bind hnext

/-- Nothing is taken in before the first request.
SOURCE: server.c:497-538 -/
theorem replies_startSession (input : SessionInput) :
    Outcome (Replies (openedSession input)) (Replies (openedSession input))
      (startSession input) := by
  apply outcome_startSession (Replies (openedSession input))
  · exact ⟨[], (List.append_nil _).symm, by simp⟩
  · intro s text _ hs
    exact hs.bind (replies_send s _ _)
  · intro s hs
    exact hs.bind (replies_nextGuess s)

/-! ## Whole runs -/

/-- What holds when a thread has stopped: `ending` if it has ended, `inv` if it waits. -/
def StopsWith (ending inv : Session → Prop) : Stop → Prop
  | .ended s => ending s
  | .waiting s => inv s

/-- INTERNAL: the rule for session threads, with the reads to come in the invariant.
SOURCE: server.c:483-623 -/
theorem outcome_pthreadRoutine_reads (inv : Session × List ReadOutcome → Prop)
    {waiting ending : Session → Prop} {input : SessionInput}
    (hstart : Outcome (fun s => inv (s, input.reads)) ending (startSession input))
    (hwait : ∀ s reads, inv (s, reads) → waiting s)
    (hcheck : ∀ s reads r, inv (s, reads) → receiveMessage s.conn.buffer gpSize reads = some r →
      Outcome (fun t => inv (t, r.reads)) ending (checkGuess r s)) (n : ℕ) :
    Outcome (fun p => inv p.state) (StopsWith ending waiting) (pthreadRoutine input n) := by
  have hpass : ∀ x, inv x →
      Outcome (fun p => inv p.state) (StopsWith ending waiting) (guessPass x) := by
    rintro ⟨s, reads⟩ hs
    simp only [guessPass]
    cases hr : receiveMessage s.conn.buffer gpSize reads with
    | none => exact hwait s reads hs
    | some r =>
      have hr' : Outcome (fun t => inv (t, r.reads)) (StopsWith ending waiting)
          ((checkGuess r s).mapError .ended) := (hcheck s reads r hs hr).mapError fun t ht => ht
      exact hr'.bind fun t ht => ht
  unfold pthreadRoutine
  have hstart' : Outcome (fun s => inv (s, input.reads)) (StopsWith ending waiting)
      ((startSession input).mapError .ended) := hstart.mapError fun t ht => ht
  exact hstart'.bind fun s hs => outcome_loop hpass n (s, input.reads) hs

/-- **The rule for session threads.** What holds when the first guess is awaited and is kept
by every guess holds whenever a guess is awaited; what holds at every end of the thread holds
when it has ended.
SOURCE: server.c:483-623 -/
theorem outcome_pthreadRoutine {inv ending : Session → Prop} {input : SessionInput}
    (hstart : Outcome inv ending (startSession input))
    (hcheck : ∀ r s, inv s → Outcome inv ending (checkGuess r s)) (n : ℕ) :
    Outcome (fun p => inv p.state.1) (StopsWith ending inv) (pthreadRoutine input n) :=
  outcome_pthreadRoutine_reads (fun x => inv x.1) hstart (fun _ _ hs => hs)
    (fun s _ r hs _ => hcheck r s hs) n

end Comp30023.Interface
