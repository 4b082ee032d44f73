import Comp30023.Analysis.TheoremTranscript

/-!
# Only received bytes are scored

`pthread_routine` neither clears its buffer before `receive_message` nor looks at the result.
What keeps old bytes out of a guess is where the terminator has to stand: `is_valid_secret_code`
wants it right behind the four colours, and there the message that was sent last, REQUEST or
INVALID, has a letter. So a buffer that passes has had five of its bytes overwritten.

Over a whole run the bytes are followed in the trace: the calls of `receive_message` take the
client's stream apart from its front, each as many bytes as it has stored.
-/

set_option autoImplicit false

namespace Comp30023.Analysis

open Comp30023.Library Comp30023.Model Comp30023.Interface

/-! ## One call of `receive_message` -/

/-- INTERNAL: a prompt has a letter where a code has its terminator.
SOURCE: server.c:200-212, game-protocol.h:14-16 -/
theorem prompted_terminator {s : Session} (h : Prompted s) :
    s.conn.buffer.getD secretCodeLen 0 ≠ 0 := by
  rcases h with h | h
  · rw [h]
    decide +kernel
  · rw [h]
    decide +kernel

/-- A buffer that passes as a code has had a code and its terminator stored.
SOURCE: server.c:546-549, secret-code.c:39-63 -/
theorem stored_of_isValid {s : Session} {bytes : List UInt8} (h : Prompted s)
    (hvalid : isValidSecretCode (bytes ++ s.conn.buffer.drop bytes.length) = true) :
    secretCodeLen + 1 ≤ bytes.length := by
  by_contra hfew
  apply prompted_terminator h
  have hend := ((isValidSecretCode_iff _).mp hvalid).2
  have hbehind : bytes.length ≤ secretCodeLen := by omega
  rw [List.getD_append_right _ _ _ _ hbehind, List.getD_eq_getElem?_getD, List.getElem?_drop,
    Nat.add_sub_cancel' hbehind, ← List.getD_eq_getElem?_getD] at hend
  exact hend

/-! ## Whole runs -/

/-- How many bytes the calls of `receive_message` in a trace have stored. -/
def storedIn (trace : List ServerEvent) : ℕ :=
  (trace.map fun
    | .receive stored _ => stored
    | _ => 0).sum

theorem storedIn_append (trace events : List ServerEvent) :
    storedIn (trace ++ events) = storedIn trace + storedIn events := by
  simp [storedIn]

theorem storedIn_eq_zero {events : List ServerEvent}
    (h : ∀ event ∈ events, isIntake event = false) : storedIn events = 0 := by
  apply List.sum_eq_zero
  intro k hk
  obtain ⟨event, hevent, rfl⟩ := List.mem_map.mp hk
  have hnone := h event hevent
  cases event <;> first | rfl | cases hnone

/-- The buffer that is checked after `before` was received: the last event is a call of
`receive_message`, it has stored a code and a terminator at least, and all it has stored are
the next bytes of the stream. -/
def ReceivedGuess (stream : List UInt8) (before : List ServerEvent) (buffer : List UInt8) :
    Prop :=
  ∃ earlier stored result, before = earlier ++ [.receive stored result] ∧
    secretCodeLen + 1 ≤ stored ∧ storedIn earlier + stored ≤ stream.length ∧
    buffer.take stored = (stream.drop (storedIn earlier)).take stored

/-- Every guess that was accepted in a trace was received. -/
def GuessesReceived (stream : List UInt8) (trace : List ServerEvent) : Prop :=
  ∀ before buffer after, trace = before ++ .check buffer :: after →
    isValidSecretCode buffer = true → ReceivedGuess stream before buffer

/-- INTERNAL: one more event. -/
theorem GuessesReceived.concat {stream : List UInt8} {trace : List ServerEvent}
    (h : GuessesReceived stream trace) {event : ServerEvent}
    (hevent : ∀ buffer, event = .check buffer → isValidSecretCode buffer = true →
      ReceivedGuess stream trace buffer) : GuessesReceived stream (trace ++ [event]) := by
  intro before buffer after htrace hvalid
  rcases List.eq_nil_or_concat after with rfl | ⟨after, last, rfl⟩
  · obtain ⟨rfl, hlast⟩ := List.append_inj' htrace rfl
    exact hevent buffer (List.singleton_inj.mp hlast) hvalid
  · have hsplit : trace ++ [event] = (before ++ .check buffer :: after) ++ [last] := by
      rw [htrace, List.append_assoc, List.cons_append, List.concat_eq_append]
    obtain ⟨htrace, -⟩ := List.append_inj' hsplit rfl
    exact h before buffer after htrace hvalid

/-- INTERNAL: events that take nothing in. -/
theorem GuessesReceived.append {stream : List UInt8} {trace events : List ServerEvent}
    (h : GuessesReceived stream trace) (hnone : ∀ event ∈ events, isIntake event = false) :
    GuessesReceived stream (trace ++ events) := by
  induction events generalizing trace with
  | nil =>
    rw [List.append_nil]
    exact h
  | cons event events ih =>
    have hconcat : GuessesReceived stream (trace ++ [event]) := by
      apply h.concat
      intro buffer hcheck
      have hfirst := hnone event List.mem_cons_self
      rw [hcheck] at hfirst
      cases hfirst
    have hrest := ih hconcat fun e he => hnone e (List.mem_cons_of_mem event he)
    rw [List.append_assoc] at hrest
    exact hrest

/-- What holds when a guess is awaited: the last prompt is in the buffer, the guesses so far
were received, and the reads to come are what the calls so far have left of the stream. -/
structure Supplied (input : SessionInput) (x : Session × List ReadOutcome) : Prop where
  prompted : Prompted x.1
  received : GuessesReceived (streamOf input.reads) x.1.conn.trace
  within : storedIn x.1.conn.trace ≤ (streamOf input.reads).length
  left : (streamOf input.reads).drop (storedIn x.1.conn.trace) = streamOf x.2

/-- INTERNAL: a call of `receive_message`, and the check of what it leaves.
SOURCE: server.c:546-549 -/
theorem Supplied.afterReceive {input : SessionInput} {s : Session} {reads : List ReadOutcome}
    (h : Supplied input (s, reads)) {r : Received}
    (hreceive : receiveMessage s.conn.buffer gpSize reads = some r) :
    GuessesReceived (streamOf input.reads) (Interface.afterReceive r s).conn.trace ∧
      storedIn (Interface.afterReceive r s).conn.trace ≤ (streamOf input.reads).length ∧
      (streamOf input.reads).drop (storedIn (Interface.afterReceive r s).conn.trace) =
        streamOf r.reads := by
  obtain ⟨bytes, hstream, hbuf, hrcvd, -⟩ :=
    receiveMessage_consumes hreceive h.prompted.length.ge
  have htrace : (Interface.afterReceive r s).conn.trace =
      s.conn.trace ++ [.receive bytes.length (r.result gpSize)] ++ [.check r.buf] := by
    rw [← hrcvd, List.append_assoc]
    rfl
  have hstored : storedIn (Interface.afterReceive r s).conn.trace =
      storedIn s.conn.trace + bytes.length := by
    rw [htrace, storedIn_append, storedIn_append]
    rfl
  have hleft : (streamOf input.reads).drop (storedIn s.conn.trace) =
      bytes ++ streamOf r.reads := h.left.trans hstream
  have hwithin : storedIn s.conn.trace + bytes.length ≤ (streamOf input.reads).length := by
    have hsize := congrArg List.length hleft
    have hbefore := h.within
    simp only [List.length_drop, List.length_append] at hsize hbefore
    omega
  refine ⟨?_, hstored ▸ hwithin, ?_⟩
  · rw [htrace]
    apply GuessesReceived.concat
    · apply h.received.concat
      intro buffer hcheck
      cases hcheck
    · rintro buffer ⟨rfl⟩ hvalid
      have hfive := stored_of_isValid h.prompted (hbuf ▸ hvalid)
      refine ⟨s.conn.trace, bytes.length, r.result gpSize, rfl, hfive, hwithin, ?_⟩
      rw [hbuf, hleft, List.take_left, List.take_left]
  · rw [hstored, ← List.drop_drop, hleft, List.drop_left]

/-- INTERNAL: what holds is not changed by what the thread replies. -/
theorem Replies.received {stream : List UInt8} {s t : Session} (h : Replies s t)
    (hs : GuessesReceived stream s.conn.trace) : GuessesReceived stream t.conn.trace := by
  obtain ⟨events, htrace, hnone⟩ := h
  rw [htrace]
  exact hs.append hnone

theorem Replies.storedIn_eq {s t : Session} (h : Replies s t) :
    storedIn t.conn.trace = storedIn s.conn.trace := by
  obtain ⟨events, htrace, hnone⟩ := h
  rw [htrace, storedIn_append, storedIn_eq_zero hnone, Nat.add_zero]

/-- INTERNAL: one pass of the inner loop, whatever `read()` returns.
SOURCE: server.c:543-581 -/
theorem supplied_checkGuess {input : SessionInput} {s : Session} {reads : List ReadOutcome}
    (h : Supplied input (s, reads)) {r : Received}
    (hreceive : receiveMessage s.conn.buffer gpSize reads = some r) :
    Outcome (fun t => Supplied input (t, r.reads))
      (fun t => GuessesReceived (streamOf input.reads) t.conn.trace) (checkGuess r s) := by
  obtain ⟨hreceived, hwithin, hleft⟩ := h.afterReceive hreceive
  have hreplies := replies_checkGuess r s
  cases hcheck : checkGuess r s with
  | ok t =>
    rw [hcheck] at hreplies
    have hstored := Replies.storedIn_eq hreplies
    exact ⟨prompted_of_checkGuess hcheck, Replies.received hreplies hreceived,
      hstored.trans_le hwithin, by rw [hstored, hleft]⟩
  | error t =>
    rw [hcheck] at hreplies
    exact Replies.received hreplies hreceived

/-- INTERNAL: the first request.
SOURCE: server.c:497-538 -/
theorem supplied_startSession (input : SessionInput) :
    Outcome (fun s => Supplied input (s, input.reads))
      (fun s => GuessesReceived (streamOf input.reads) s.conn.trace) (startSession input) := by
  have hopened : ∀ event ∈ (openedSession input).conn.trace, isIntake event = false := by
    simp [openedSession, Session.record, Connection.record, incrementClientsNowCount,
      incrementClientsCount, isIntake]
  have hreceived : GuessesReceived (streamOf input.reads) (openedSession input).conn.trace := by
    have hnil : GuessesReceived (streamOf input.reads) [] := by
      intro before buffer after htrace
      simp at htrace
    exact hnil.append hopened
  have hreplies := replies_startSession input
  cases hstart : startSession input with
  | ok s =>
    rw [hstart] at hreplies
    have hstored : storedIn s.conn.trace = 0 :=
      (Replies.storedIn_eq hreplies).trans (storedIn_eq_zero hopened)
    exact ⟨prompted_of_startSession hstart, Replies.received hreplies hreceived,
      hstored.trans_le (Nat.zero_le _), by rw [hstored, List.drop_zero]⟩
  | error s =>
    rw [hstart] at hreplies
    exact Replies.received hreplies hreceived

/-- **Only received bytes are scored.** In every run of a session, whatever `read()` and
`write()` return: when a guess is accepted, the event before is a call of `receive_message` that
has stored `SECRET_CODE_LEN + 1` bytes or more, and these are, at the front of the buffer, the
bytes of the client's stream that follow those the earlier calls have stored.
SOURCE: server.c:534-581, message-helpers.c:19-42, secret-code.c:39-63 -/
theorem accepted_guesses_received (input : SessionInput) (n : ℕ)
    (before after : List ServerEvent) (buffer : List UInt8)
    (htrace : (sessionAt (pthreadRoutine input n)).conn.trace = before ++ .check buffer :: after)
    (hvalid : isValidSecretCode buffer = true) :
    ∃ earlier stored result, before = earlier ++ [.receive stored result] ∧
      secretCodeLen + 1 ≤ stored ∧ storedIn earlier + stored ≤ (streamOf input.reads).length ∧
      buffer.take stored = ((streamOf input.reads).drop (storedIn earlier)).take stored := by
  have hrun : Outcome (fun p => Supplied input p.state)
      (StopsWith (fun t => GuessesReceived (streamOf input.reads) t.conn.trace)
        fun t => GuessesReceived (streamOf input.reads) t.conn.trace) (pthreadRoutine input n) := by
    apply outcome_pthreadRoutine_reads (Supplied input) (supplied_startSession input)
    · intro s reads hs
      exact hs.received
    · intro s reads r hs hreceive
      exact supplied_checkGuess hs hreceive
  have hreceived : GuessesReceived (streamOf input.reads)
      (sessionAt (pthreadRoutine input n)).conn.trace := by
    cases hresult : pthreadRoutine input n with
    | ok p =>
      rw [hresult] at hrun
      exact hrun.received
    | error stop =>
      rw [hresult] at hrun
      cases stop with
      | waiting t => exact hrun
      | ended t => exact hrun
  exact hreceived before buffer after htrace hvalid

/-- A client that sends the secret in two pieces, with an error between them, and then closes its
half of the connection. -/
def brokenOffClient : SessionInput :=
  { secretCode := ascii "FACE", stackBuffer := [], rand := fun _ => 0, writes := []
    reads := [.data (ascii "FA"), .error, .data (ascii "CE" ++ [0]), .eof, .eof] }

/-- The one call of `receive_message` in the session of that client fails, and what it has
stored is accepted all the same. -/
theorem accepted_guesses_received_broken_off :
    ∃ before buffer after,
      (sessionAt (pthreadRoutine brokenOffClient 1)).conn.trace =
        before ++ .check buffer :: after ∧
      isValidSecretCode buffer = true ∧
      ∃ earlier stored result, before = earlier ++ [.receive stored result] ∧
        secretCodeLen + 1 ≤ stored ∧
        storedIn earlier + stored ≤ (streamOf brokenOffClient.reads).length ∧
        buffer.take stored =
          ((streamOf brokenOffClient.reads).drop (storedIn earlier)).take stored := by
  have hchecked : .check (ascii "FACE" ++ 0 :: (composeGpMessage .guessReq none).drop 5) ∈
      (sessionAt (pthreadRoutine brokenOffClient 1)).conn.trace := by decide +kernel
  have hvalid : isValidSecretCode
      (ascii "FACE" ++ 0 :: (composeGpMessage .guessReq none).drop 5) = true := by decide +kernel
  obtain ⟨before, after, htrace⟩ := List.append_of_mem hchecked
  exact ⟨before, _, after, htrace, hvalid,
    accepted_guesses_received brokenOffClient 1 before after _ htrace hvalid⟩

end Comp30023.Analysis
