import Comp30023.Interface.ReceiveMessage
import Comp30023.Interface.SessionRule

/-!
# Sessions on whole messages

A session seen one level up: instead of reads it is given the list of messages its client
sends, and checks them one after the other (`playMessages`). This module says what each part
of `pthread_routine` leaves in the trace and in the buffer, and shows that a session on
bytes is the session on messages as long as every call of `receive_message` gets a message.
-/

set_option autoImplicit false

namespace Comp30023.Interface

open Comp30023.Library Comp30023.Model

/-- The buffers that were passed to `is_valid_secret_code`, in order. -/
def checked (trace : List ServerEvent) : List (List UInt8) :=
  trace.filterMap fun
    | .check buffer => some buffer
    | _ => none

/-- The session that is left behind, whether or not the thread has stopped. -/
def sessionOf : Except Session Session → Session
  | .ok s => s
  | .error s => s

/-! ## What is checked -/

/-- From `s` on no buffer was checked. -/
def Quiet (s : Session) (result : Except Session Session) : Prop :=
  checked (sessionOf result).conn.trace = checked s.conn.trace

/-- INTERNAL: events that are no checks. -/
theorem checked_record {s : Session} {events : List ServerEvent} (h : checked events = []) :
    checked (s.record events).conn.trace = checked s.conn.trace := by
  show checked (s.conn.trace ++ events) = checked s.conn.trace
  unfold checked at h ⊢
  rw [List.filterMap_append, h, List.append_nil]

/-- INTERNAL: a part of the thread that takes nothing in. -/
theorem quiet_of_replies {s : Session} {result : Except Session Session}
    (h : Outcome (Replies s) (Replies s) result) : Quiet s result := by
  have hreplies : Replies s (sessionOf result) := by
    cases result with
    | ok t => exact h
    | error t => exact h
  obtain ⟨events, htrace, hnone⟩ := hreplies
  have hevents : checked events = [] := by
    rw [checked, List.filterMap_eq_nil_iff]
    intro event hevent
    have hquiet := hnone event hevent
    cases event <;> first | rfl | cases hquiet
  unfold Quiet
  rw [htrace]
  unfold checked at hevents ⊢
  rw [List.filterMap_append, hevents, List.append_nil]

/-- One call of `receive_message` leads to one check, of the buffer it leaves. -/
theorem checked_checkGuess (r : Received) (s : Session) :
    checked (sessionOf (checkGuess r s)).conn.trace = checked s.conn.trace ++ [r.buf] := by
  have hcheck : ∀ t : Session, checked (t.record
      [.receive r.rcvdMsgSize (r.result gpSize), .check r.buf]).conn.trace =
        checked t.conn.trace ++ [r.buf] := by
    intro t
    simp [Session.record, Connection.record, checked]
  unfold checkGuess
  dsimp only
  split_ifs
  · have hscored := replies_scoreGuess (Session.record { s with conn.buffer := r.buf }
      [.receive r.rcvdMsgSize (r.result gpSize), .check r.buf])
    have hquiet := quiet_of_replies (hscored.bind fun t ht => ht.bind (replies_nextGuess t))
    exact hquiet.trans (hcheck _)
  · exact (quiet_of_replies (replies_send _ _ _)).trans (hcheck _)

/-- INTERNAL: nothing is checked before the first request. -/
theorem checked_startSession (input : SessionInput) :
    checked (sessionOf (startSession input)).conn.trace = [] :=
  (quiet_of_replies (replies_startSession input)).trans rfl

/-! ## What is in the buffer when a guess is awaited -/

/-- The buffer holds what was sent last, a request or the notice of an invalid guess. -/
def Prompted (s : Session) : Prop :=
  s.conn.buffer = composeGpMessage .guessReq none ∨ s.conn.buffer = composeGpMessage .guessInv none

/-- INTERNAL: it has the size of a message. -/
theorem Prompted.length {s : Session} (h : Prompted s) : s.conn.buffer.length = gpSize := by
  rcases h with h | h <;> rw [h] <;> rfl

/-- INTERNAL: it ends in a zero. -/
theorem Prompted.getLast {s : Session} (h : Prompted s) : s.conn.buffer.getLast? = some 0 := by
  rcases h with h | h <;> rw [h] <;> rfl

/-- INTERNAL: a message that was sent is still in the buffer. -/
theorem buffer_of_send {s t : Session} {msgType : GpMessageType}
    {msgPayload : Option (List UInt8)} (h : s.send msgType msgPayload = .ok t) :
    t.conn.buffer = composeGpMessage msgType msgPayload := by
  unfold Session.send sendGpMessage at h
  dsimp only at h
  split_ifs at h
  simp only [Except.ok.injEq] at h
  subst h
  rfl

/-- INTERNAL: the game is not over when another guess is awaited. -/
theorem gameOver_ne_ok (s t : Session) : gameOver s ≠ .ok t := by
  intro h
  obtain ⟨u, -, hend⟩ := bind_eq_ok h
  cases hend

/-- INTERNAL: the outer loop comes to its inner loop with a request. -/
theorem prompted_of_nextGuess {s t : Session} (h : nextGuess s = .ok t) : Prompted t := by
  unfold nextGuess at h
  split_ifs at h
  · exact Or.inl (buffer_of_send h)
  · exact absurd h (gameOver_ne_ok s t)

/-- INTERNAL: every pass of the inner loop ends with a prompt. -/
theorem prompted_of_checkGuess {r : Received} {s t : Session} (h : checkGuess r s = .ok t) :
    Prompted t := by
  unfold checkGuess at h
  dsimp only at h
  split_ifs at h
  · obtain ⟨u, -, hnext⟩ := bind_eq_ok h
    exact prompted_of_nextGuess hnext
  · exact Or.inr (buffer_of_send h)

/-- INTERNAL: and so does the beginning of the session. -/
theorem prompted_of_startSession {input : SessionInput} {s : Session}
    (h : startSession input = .ok s) : Prompted s := by
  unfold startSession at h
  obtain ⟨_, -, h⟩ := bind_eq_ok h
  obtain ⟨_, -, h⟩ := bind_eq_ok h
  obtain ⟨_, -, h⟩ := bind_eq_ok h
  exact prompted_of_nextGuess h

/-! ## A socket that takes everything -/

/-- INTERNAL: a `write()` that takes everything. -/
theorem sendMessage_nil (msg : List UInt8) :
    sendMessage msg gpSize [] =
      { sentMsgSize := gpSize, isConnLost := false, written := msg.take gpSize, writes := [] } := by
  simp [sendMessage, writeAttemptsMaxCount, sendLoop, write, gpSize]

/-- INTERNAL: on such a socket a message is sent, and the game is not touched. -/
theorem send_of_nil {s : Session} (h : s.conn.writes = []) (msgType : GpMessageType)
    (msgPayload : Option (List UInt8)) :
    ∃ t, s.send msgType msgPayload = .ok t ∧ t.conn.writes = [] ∧
      t.guessesCount = s.guessesCount ∧ t.correctPositionsCount = s.correctPositionsCount := by
  unfold Session.send sendGpMessage
  rw [h]
  simp only [sendMessage_nil]
  exact ⟨_, rfl, rfl, rfl, rfl⟩

/-- INTERNAL: a game that has not begun, on a socket that takes everything. -/
def Fresh (s : Session) : Prop :=
  s.conn.writes = [] ∧ s.guessesCount = 0 ∧ s.correctPositionsCount = 0

/-- INTERNAL: it stays so when a message is sent. -/
theorem Fresh.send {s : Session} (h : Fresh s) (msgType : GpMessageType)
    (msgPayload : Option (List UInt8)) : ∃ t, s.send msgType msgPayload = .ok t ∧ Fresh t := by
  obtain ⟨hwrites, hguesses, hpositions⟩ := h
  obtain ⟨t, ht, hnil, hg, hp⟩ := send_of_nil hwrites msgType msgPayload
  exact ⟨t, ht, hnil, hg.trans hguesses, hp.trans hpositions⟩

/-- INTERNAL: on such a socket a session comes to its inner loop. -/
theorem startSession_of_nil {input : SessionInput} (h : input.writes = []) :
    ∃ s, startSession input = .ok s ∧ s.conn.writes = [] := by
  unfold startSession
  dsimp only
  generalize hinit : Session.record _ _ = s₀
  have hfresh : Fresh s₀ := by
    subst hinit
    exact ⟨h, rfl, rfl⟩
  obtain ⟨s₁, h₁, hs₁⟩ := hfresh.send .dispMsg (some welcomeMessage)
  obtain ⟨s₂, h₂, hs₂⟩ := hs₁.send .dispMsg (some instructions1Message)
  obtain ⟨s₃, h₃, hs₃⟩ := hs₂.send .dispMsg (some instructions2Message)
  obtain ⟨s₄, h₄, hs₄⟩ := hs₃.send .guessReq none
  have hnext : nextGuess s₃ = .ok s₄ := by
    unfold nextGuess
    rw [hs₃.2.1, hs₃.2.2]
    exact h₄
  refine ⟨s₄, ?_, hs₄.1⟩
  rw [h₁]
  show (s₁.send .dispMsg (some instructions1Message) >>= _) = _
  rw [h₂]
  show (s₂.send .dispMsg (some instructions2Message) >>= _) = _
  rw [h₃]
  exact hnext

/-- INTERNAL: an invalid guess keeps the session going. -/
theorem checkGuess_of_invalid {s : Session} {rcvdMsgSize : ℕ} {buf : List UInt8}
    {reads : List ReadOutcome} (h : s.conn.writes = []) (hinvalid : isValidSecretCode buf = false) :
    ∃ t, checkGuess ⟨rcvdMsgSize, buf, reads⟩ s = .ok t ∧ t.conn.writes = [] := by
  unfold checkGuess
  simp only [hinvalid, Bool.false_eq_true, if_false]
  obtain ⟨t, ht, hnil, -⟩ := send_of_nil (s := Session.record { s with conn.buffer := buf }
    [.receive rcvdMsgSize (Received.result ⟨rcvdMsgSize, buf, reads⟩ gpSize), .check buf]) h
    .guessInv none
  exact ⟨t, ht, hnil⟩

/-! ## Playing messages -/

/-- The session that gets these messages as guesses, one for each call of
`receive_message`, and then waits. -/
def playMessages : List (List UInt8) → Session → Stop
  | [], s => .waiting s
  | message :: messages, s =>
    match checkGuess ⟨message.length, message, []⟩ s with
    | .error t => .ended t
    | .ok t => playMessages messages t

/-- A session thread from its start, on messages. -/
def messageSession (input : SessionInput) (messages : List (List UInt8)) : Stop :=
  match startSession input with
  | .error s => .ended s
  | .ok s => playMessages messages s

/-- INTERNAL: what is checked is the messages, until the session ends. -/
theorem checked_playMessages (messages : List (List UInt8)) (s : Session) :
    ∃ rest, checked s.conn.trace ++ messages =
        checked (playMessages messages s).session.conn.trace ++ rest ∧
      ∀ t, playMessages messages s = .waiting t → rest = [] := by
  induction messages generalizing s with
  | nil => exact ⟨[], rfl, fun _ _ => rfl⟩
  | cons message messages ih =>
    have hone := checked_checkGuess ⟨message.length, message, []⟩ s
    have hsplit : checked s.conn.trace ++ message :: messages =
        checked s.conn.trace ++ [message] ++ messages := by simp
    simp only [playMessages]
    cases hcheck : checkGuess ⟨message.length, message, []⟩ s with
    | error t =>
      rw [hcheck] at hone
      exact ⟨messages, by rw [hsplit, ← hone]; rfl, fun u hu => by cases hu⟩
    | ok t =>
      rw [hcheck] at hone
      rw [hsplit, ← hone]
      exact ih t

/-! ## Bytes and messages -/

/-- The thread comes to this stop after some number of passes. -/
def SessionStops (input : SessionInput) (stop : Stop) : Prop :=
  ∃ n, pthreadRoutine input n = .error stop

/-- INTERNAL: a thread that gets to its inner loop stops where the loop does. -/
theorem sessionStops_iff {input : SessionInput} {s : Session} (h : startSession input = .ok s)
    (stop : Stop) : SessionStops input stop ↔ Faults guessPass (s, input.reads) stop := by
  unfold SessionStops Faults pthreadRoutine
  rw [h]
  rfl

/-- INTERNAL: one pass of the inner loop, once `receive_message` has come back. -/
theorem guessPass_received {s : Session} {reads : List ReadOutcome} {r : Received}
    (h : receiveMessage s.conn.buffer gpSize reads = some r) :
    guessPass (s, reads) =
      match checkGuess r s with
      | .error t => .error (.ended t)
      | .ok t => .ok (.again (t, r.reads)) := by
  simp only [guessPass, h]
  cases checkGuess r s <;> rfl

/-- INTERNAL: how a session that comes to a stop goes on from a call of `receive_message`. -/
theorem loop_received {n : ℕ} {s : Session} {reads : List ReadOutcome} {r : Received}
    {stop : Stop} (h : loop guessPass (n + 1) (s, reads) = .error stop)
    (hreceive : receiveMessage s.conn.buffer gpSize reads = some r) :
    (∃ t, checkGuess r s = .error t ∧ stop = .ended t) ∨
      ∃ t, checkGuess r s = .ok t ∧ loop guessPass n (t, r.reads) = .error stop := by
  simp only [loop, guessPass_received hreceive] at h
  cases hcheck : checkGuess r s with
  | error t =>
    simp only [hcheck, Except.error.injEq] at h
    exact Or.inl ⟨t, rfl, h.symm⟩
  | ok t =>
    rw [hcheck] at h
    exact Or.inr ⟨t, rfl, h⟩

/-- INTERNAL: the same for any number of passes. -/
theorem faults_received {s : Session} {reads : List ReadOutcome} {r : Received} {stop : Stop}
    (h : Faults guessPass (s, reads) stop)
    (hreceive : receiveMessage s.conn.buffer gpSize reads = some r) :
    (∃ t, checkGuess r s = .error t ∧ stop = .ended t) ∨
      ∃ t, checkGuess r s = .ok t ∧ Faults guessPass (t, r.reads) stop := by
  obtain ⟨n, hn⟩ := h
  cases n with
  | zero => cases hn
  | succ n =>
    rcases loop_received hn hreceive with hend | ⟨t, ht, hgo⟩
    · exact Or.inl hend
    · exact Or.inr ⟨t, ht, n, hgo⟩

/-- INTERNAL: what was checked stays checked. -/
theorem checked_of_faults {s : Session} {reads : List ReadOutcome} {stop : Stop}
    (h : Faults guessPass (s, reads) stop) :
    checked s.conn.trace <+: checked stop.session.conn.trace := by
  obtain ⟨n, hn⟩ := h
  induction n generalizing s reads with
  | zero => cases hn
  | succ n ih =>
    cases hreceive : receiveMessage s.conn.buffer gpSize reads with
    | none =>
      simp only [loop, guessPass, hreceive, Except.error.injEq] at hn
      subst hn
      exact List.prefix_rfl
    | some r =>
      have hone := checked_checkGuess r s
      rcases loop_received hn hreceive with ⟨t, ht, rfl⟩ | ⟨t, ht, hgo⟩
      · rw [ht] at hone
        exact ⟨[r.buf], hone.symm⟩
      · rw [ht] at hone
        exact List.IsPrefix.trans ⟨[r.buf], hone.symm⟩ (ih hgo)

/-- INTERNAL: the buffer that `receive_message` leaves is among those checked. -/
theorem buf_mem_checked {s : Session} {reads : List ReadOutcome} {r : Received} {stop : Stop}
    (h : Faults guessPass (s, reads) stop)
    (hreceive : receiveMessage s.conn.buffer gpSize reads = some r) :
    r.buf ∈ checked stop.session.conn.trace := by
  have hone := checked_checkGuess r s
  have hmem : r.buf ∈ checked s.conn.trace ++ [r.buf] :=
    List.mem_append_right _ List.mem_cons_self
  rw [← hone] at hmem
  rcases faults_received h hreceive with ⟨t, hcheck, rfl⟩ | ⟨t, hcheck, hgo⟩
  · rw [hcheck] at hmem
    exact hmem
  · rw [hcheck] at hmem
    exact (checked_of_faults hgo).subset hmem

/-- INTERNAL: a message that is spread over few enough chunks is what `receive_message`
leaves in the buffer. -/
theorem receiveMessage_message {s : Session} {message rest : List UInt8}
    {chunks : List (List UInt8)} (hs : Prompted s) (hmessage : message.length = gpSize)
    (hflatten : chunks.flatten = message ++ rest)
    (hspread : spread gpSize (chunks.map List.length) ≤ readAttemptsMaxCount) :
    receiveMessage s.conn.buffer gpSize (chunks.map .data) =
      some ⟨message.length, message, (chunksAfter gpSize chunks).map .data⟩ := by
  have hsize : gpSize ≤ chunks.flatten.length := by
    rw [hflatten, List.length_append]
    omega
  have htake : chunks.flatten.take gpSize = message := by
    rw [hflatten, ← hmessage, List.take_left]
  unfold receiveMessage
  rw [receiveLoop_within hs.length.ge (by decide) hsize hspread, Nat.sub_zero, htake,
    store_full (hs.length.trans hmessage.symm), hmessage]

/-- The inner loop on chunks is the session on messages, if no message is spread over more
chunks than `receive_message` has attempts. -/
theorem faults_playMessages {messages chunks : List (List UInt8)} {s : Session} (hs : Prompted s)
    (hmessages : ∀ message ∈ messages, message.length = gpSize) (hchunks : ∀ c ∈ chunks, c ≠ [])
    (hflatten : chunks.flatten = messages.flatten)
    (hspread : SpreadWithin gpSize readAttemptsMaxCount messages.length
      (chunks.map List.length)) :
    Faults guessPass (s, chunks.map .data) (playMessages messages s) := by
  induction messages generalizing s chunks with
  | nil =>
    -- no chunk is left, so the next `read()` waits
    have hnil : chunks = [] := by
      cases chunks with
      | nil => rfl
      | cons c chunks =>
        have hc := hchunks c List.mem_cons_self
        simp [hc] at hflatten
    subst hnil
    exact ⟨1, rfl⟩
  | cons message messages ih =>
    obtain ⟨hfirst, hrest⟩ := hspread
    have hmessage : message.length = gpSize := hmessages message List.mem_cons_self
    have hpass := guessPass_received (receiveMessage_message hs hmessage hflatten hfirst)
    have hsame : ∀ reads, checkGuess ⟨message.length, message, reads⟩ s =
        checkGuess ⟨message.length, message, []⟩ s := fun _ => rfl
    rw [hsame] at hpass
    simp only [playMessages]
    cases hcheck : checkGuess ⟨message.length, message, []⟩ s with
    | error t =>
      rw [hcheck] at hpass
      exact ⟨1, by simp [loop, hpass]⟩
    | ok t =>
      rw [hcheck] at hpass
      have hleft : (chunksAfter gpSize chunks).flatten = messages.flatten := by
        rw [flatten_chunksAfter, hflatten, List.flatten_cons, ← hmessage, List.drop_left]
      obtain ⟨n, hn⟩ := ih (prompted_of_checkGuess hcheck)
        (fun m hm => hmessages m (List.mem_cons_of_mem message hm)) (chunksAfter_ne_nil hchunks)
        hleft (by rw [map_length_chunksAfter]; exact hrest)
      exact ⟨n + 1, by simp only [loop, hpass, hn]⟩

/-- A session on chunks is the session on messages, if no message is spread over more chunks
than `receive_message` has attempts. -/
theorem sessionStops_messageSession {input : SessionInput} {messages chunks : List (List UInt8)}
    (hreads : input.reads = chunks.map .data)
    (hmessages : ∀ message ∈ messages, message.length = gpSize) (hchunks : ∀ c ∈ chunks, c ≠ [])
    (hflatten : chunks.flatten = messages.flatten)
    (hspread : SpreadWithin gpSize readAttemptsMaxCount messages.length
      (chunks.map List.length)) :
    SessionStops input (messageSession input messages) := by
  unfold messageSession
  cases hstart : startSession input with
  | error s =>
    refine ⟨0, ?_⟩
    unfold pthreadRoutine
    rw [hstart]
    rfl
  | ok s =>
    rw [sessionStops_iff hstart, hreads]
    exact faults_playMessages (prompted_of_startSession hstart) hmessages hchunks hflatten hspread

end Comp30023.Interface
