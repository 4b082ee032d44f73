import Comp30023.Interface.SessionGame

/-!
# Receives that fail

`pthread_routine` does not look at what `receive_message` returns. Whatever is left in the
buffer is checked as if it were a guess; in the buffer is the prompt that was sent last, with
the bytes that did arrive over its beginning. So a session is ended by a receive that failed
only if the message it is answered with cannot be sent either.
-/

set_option autoImplicit false

namespace Comp30023.Analysis

open Comp30023.Library Comp30023.Model Comp30023.Interface

/-- Some run of the session comes to a call of `receive_message` in the state `s`, and the call
returns `READ_ERROR`, leaving `r`.
SOURCE: server.c:546 -/
def FailedReceive (input : SessionInput) (s : Session) (r : Received) : Prop :=
  ∃ n reads, pthreadRoutine input n = .ok (.again (s, reads)) ∧
    receiveMessage s.conn.buffer gpSize reads = some r ∧ r.result gpSize = readError

/-- From the call of `receive_message` that left `r` on, the thread scores no guess, sends no
message, closes its socket, counts itself out and ends. `sent` says by the result of
`send_message` whether a message counts as sent. -/
def EndsSession (sent : ℤ → Prop) (r : Received) (s : Session) : Prop :=
  ∃ t events, checkGuess r s = .error t ∧ t.conn.trace = s.conn.trace ++ events ∧
    scored events = [] ∧
    (∀ msgType msgPayload result, .send msgType msgPayload result ∈ events → ¬ sent result) ∧
    .close ∈ events ∧ .count .clientsNowCount (-1) ∈ events

/-- INTERNAL: a buffer that passes as a guess is scored.
SOURCE: server.c:548-559 -/
theorem not_endsSession_of_valid {sent : ℤ → Prop} {r : Received} {s : Session}
    (h : isValidSecretCode r.buf = true) : ¬ EndsSession sent r s := by
  rintro ⟨t, events, hend, htrace, hscored, -⟩
  have hlogged : Outcome (Follows (logGuess (afterReceive r s)))
      (Follows (logGuess (afterReceive r s))) (checkGuess r s) := by
    rw [checkGuess_eq, if_pos h]
    apply (follows_scoreGuess (afterReceive r s)).bind
    intro u hu
    exact (replies_nextGuess u).mono (fun v hv => hu.trans hv.follows)
      fun v hv => hu.trans hv.follows
  rw [hend] at hlogged
  obtain ⟨rest, hrest⟩ := hlogged
  simp only [logGuess, afterReceive, Session.record, Connection.record, List.append_assoc] at hrest
  rw [htrace, List.append_cancel_left_eq] at hrest
  rw [← hrest] at hscored
  simp [scored] at hscored

/-- When a session ends at a receive, if only messages that are taken count as sent. -/
theorem endsSession_iff (r : Received) (s : Session) :
    EndsSession (· = gpSize) r s ↔
      isValidSecretCode r.buf = false ∧
        ¬ TakesWithin gpSize writeAttemptsMaxCount s.conn.writes := by
  by_cases hvalid : isValidSecretCode r.buf = true
  · simp [not_endsSession_of_valid hvalid, hvalid]
  · have hcheck : checkGuess r s = (afterReceive r s).send .guessInv none := by
      rw [checkGuess_eq, if_neg hvalid]
    rw [Bool.not_eq_true] at hvalid
    simp only [hvalid, true_and]
    rcases send_cases (afterReceive r s) .guessInv none with ⟨htakes, hok, -⟩ |
      ⟨hlost, result, events, hresult, hevents, herror, htrace⟩
    · refine iff_of_false ?_ (not_not.mpr htakes)
      rintro ⟨t, events, hend, -⟩
      rw [hcheck, hok] at hend
      cases hend
    · refine iff_of_true ⟨_, [.receive r.rcvdMsgSize (r.result gpSize), .check r.buf,
        .send .guessInv none result] ++ events, hcheck.trans herror, ?_, ?_, ?_, ?_, ?_⟩ hlost
      · show (afterSend (afterReceive r s) .guessInv none).conn.trace ++ events = _
        rw [htrace]
        simp [afterReceive, Session.record, Connection.record]
      · rcases hevents with rfl | rfl <;> rfl
      · intro msgType msgPayload result' hmem
        rcases hevents with rfl | rfl
        all_goals
          simp [connLostEvents, sendFailedEvents, decrementClientsNowCount] at hmem
          rw [hmem.2.2]
          exact hresult
      · rcases hevents with rfl | rfl <;> simp [connLostEvents, sendFailedEvents]
      · rcases hevents with rfl | rfl <;>
          simp [connLostEvents, sendFailedEvents, decrementClientsNowCount]

/-- INTERNAL: a message is attempted after every receive.
SOURCE: server.c:547-578 -/
theorem not_endsSession_attempted (r : Received) (s : Session) :
    ¬ EndsSession (fun _ => True) r s := by
  by_cases hvalid : isValidSecretCode r.buf = true
  · exact not_endsSession_of_valid hvalid
  · rintro ⟨t, events, hend, htrace, -, hsends, -⟩
    have hcheck : checkGuess r s = (afterReceive r s).send .guessInv none := by
      rw [checkGuess_eq, if_neg hvalid]
    rw [hcheck] at hend
    rcases send_cases (afterReceive r s) .guessInv none with ⟨-, hok, -⟩ |
      ⟨-, result, events', -, -, herror, htrace'⟩
    · cases hok.symm.trans hend
    · obtain rfl := Except.error.inj (herror.symm.trans hend)
      have hmem : .send .guessInv none result ∈ events := by
        have hsplit : (afterSend (afterReceive r s) .guessInv none).conn.trace ++ events' =
            s.conn.trace ++ events := htrace
        rw [htrace'] at hsplit
        simp only [afterReceive, Session.record, Connection.record, List.append_assoc,
          List.append_cancel_left_eq] at hsplit
        rw [← hsplit]
        simp
      exact hsends _ _ _ hmem trivial

/-- **When a failed receive ends the session.** If a message counts as sent when the client
takes all of it, failed receives end the session exactly if each of them leaves something
other than a valid code in the buffer and comes when the client does not take another message.
If the attempt counts, they do so exactly if no receive fails.
SOURCE: server.c:540-581 -/
theorem failed_receives_end_session_iff (input : SessionInput) :
    ((∀ s r, FailedReceive input s r → EndsSession (· = gpSize) r s) ↔
      ∀ s r, FailedReceive input s r → isValidSecretCode r.buf = false ∧
        ¬ TakesWithin gpSize writeAttemptsMaxCount s.conn.writes) ∧
    ((∀ s r, FailedReceive input s r → EndsSession (fun _ => True) r s) ↔
      ∀ s r, ¬ FailedReceive input s r) := by
  constructor
  · exact forall₃_congr fun s r _ => endsSession_iff r s
  · exact forall₂_congr fun s r => imp_congr_right fun _ =>
      iff_of_false (not_endsSession_attempted r s) id

/-- A client that takes what comes before its first guess, and is gone then. -/
def goneClient : SessionInput :=
  { secretCode := [], stackBuffer := [], rand := fun _ => 0
    reads := List.replicate 5 .eof, writes := List.replicate 4 (.accept gpSize) ++ [.epipe] }

/-- INTERNAL: its first receive fails, and there is no second one.
SOURCE: server.c:489-502, 527-552 -/
theorem goneClient_receives :
    (∃ s r, FailedReceive goneClient s r) ∧
      ∀ s r, FailedReceive goneClient s r → isValidSecretCode r.buf = false ∧
        ¬ TakesWithin gpSize writeAttemptsMaxCount s.conn.writes := by
  have hfacts : ((startSession goneClient).toOption.map fun s =>
      (s.conn.writes, isValidSecretCode s.conn.buffer, (guessPass (s, goneClient.reads)).isOk)) =
        some ([.epipe], false, false) := by decide +kernel
  cases hstart : startSession goneClient with
  | error s => simp [hstart, Except.toOption] at hfacts
  | ok s =>
    simp only [hstart, Except.toOption, Option.map_some, Option.some.injEq, Prod.mk.injEq] at hfacts
    obtain ⟨hwrites, hinvalid, hends⟩ := hfacts
    have hroutine : ∀ n, pthreadRoutine goneClient n = loop guessPass n (s, goneClient.reads) := by
      intro n
      unfold pthreadRoutine
      rw [hstart]
      rfl
    have hreceive : receiveMessage s.conn.buffer gpSize goneClient.reads =
        some ⟨0, s.conn.buffer, []⟩ := by
      simp [receiveMessage, goneClient, readAttemptsMaxCount, receiveLoop, Model.read, store, gpSize]
    refine ⟨⟨s, ⟨0, s.conn.buffer, []⟩, 0, goneClient.reads, hroutine 0, hreceive, rfl⟩, ?_⟩
    rintro s' r ⟨n, reads, hrun, hreceive', -⟩
    rw [hroutine] at hrun
    cases n with
    | zero =>
      cases hrun
      rw [hreceive, Option.some.injEq] at hreceive'
      subst hreceive'
      refine ⟨hinvalid, ?_⟩
      rw [hwrites]
      exact id
    | succ n =>
      cases hpass : guessPass (s, goneClient.reads) with
      | ok p => simp [hpass, Except.isOk, Except.toBool] at hends
      | error e => simp [loop, hpass] at hrun

/-- INTERNAL: the failed receive ends the session of that client.
SOURCE: server.c:540-581 -/
theorem failed_receives_end_session_gone :
    ∃ s r, FailedReceive goneClient s r ∧ EndsSession (· = gpSize) r s := by
  obtain ⟨⟨s, r, hfailed⟩, hcondition⟩ := goneClient_receives
  exact ⟨s, r, hfailed, (failed_receives_end_session_iff goneClient).1.mpr hcondition s r hfailed⟩

/-- A client that sends nothing and has closed its half of the connection, but still reads. -/
def halfClosedClient : SessionInput :=
  { secretCode := [], stackBuffer := [], rand := fun _ => 0
    reads := List.replicate 5 .eof, writes := [] }

/-- The session of that client goes on after the end of its stream, with a notice of an
invalid guess.
SOURCE: server.c:546-552 -/
theorem half_closed_session_goes_on :
    ∃ s r t, FailedReceive halfClosedClient s r ∧ checkGuess r s = .ok t ∧
      .send .guessInv none gpSize ∈ t.conn.trace ∧ ¬ EndsSession (· = gpSize) r s := by
  obtain ⟨s, hstart, hwrites⟩ := startSession_of_nil (show halfClosedClient.writes = [] from rfl)
  have hinvalid : isValidSecretCode s.conn.buffer = false := by
    rcases prompted_of_startSession hstart with hbuffer | hbuffer
    · rw [hbuffer]
      decide +kernel
    · rw [hbuffer]
      decide +kernel
  have htakes : TakesWithin gpSize writeAttemptsMaxCount s.conn.writes := by
    rw [hwrites]
    trivial
  have hreceive : receiveMessage s.conn.buffer gpSize halfClosedClient.reads =
      some ⟨0, s.conn.buffer, []⟩ := by
    simp [receiveMessage, halfClosedClient, readAttemptsMaxCount, receiveLoop, Model.read, store,
      gpSize]
  have hcheck : checkGuess ⟨0, s.conn.buffer, []⟩ s =
      (afterReceive ⟨0, s.conn.buffer, []⟩ s).send .guessInv none := by
    rw [checkGuess_eq, if_neg (by rw [hinvalid]; decide)]
  have hfailed : FailedReceive halfClosedClient s ⟨0, s.conn.buffer, []⟩ := by
    refine ⟨0, halfClosedClient.reads, ?_, hreceive, rfl⟩
    unfold pthreadRoutine
    rw [hstart]
    rfl
  refine ⟨s, ⟨0, s.conn.buffer, []⟩, afterSend (afterReceive ⟨0, s.conn.buffer, []⟩ s) .guessInv none,
    hfailed, ?_, ?_, fun hends => ((endsSession_iff _ s).mp hends).2 htakes⟩
  all_goals
    rcases send_cases (afterReceive ⟨0, s.conn.buffer, []⟩ s) .guessInv none with
      ⟨-, hok, htrace⟩ | ⟨hlost, -⟩
  · exact hcheck.trans hok
  · exact absurd htakes hlost
  · rw [htrace]
    exact List.mem_append_right _ List.mem_cons_self
  · exact absurd htakes hlost

end Comp30023.Analysis
