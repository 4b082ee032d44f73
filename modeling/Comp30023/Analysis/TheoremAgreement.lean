import Comp30023.Interface.PlayedGame
import Comp30023.Analysis.TheoremFeedback
import Comp30023.Analysis.TheoremTranscript

/-!
# The client and the server agree

In every game over a reliable connection, in whatever order the two sides take their turns:
the messages the client has handled, the one it holds and those on their way are the messages
the server has sent, in order. From this and from the server's side of the protocol everything
else follows: guesses answer prompts one by one, nobody waits for the other in vain, and both
sides agree on who has won.
-/

set_option autoImplicit false

namespace Comp30023.Analysis

open Comp30023.Library Comp30023.Model Comp30023.Interface

variable {secret : List UInt8}

/-! ## The server's end -/

/-- All messages of the session can be decoded. -/
def AllFormed (s : Session) : Prop := ∀ message ∈ messages s.conn.trace, WellFormed message

theorem AllFormed.append {s t : Session} {sent : List GpMessage} (h : AllFormed s)
    (ht : messages t.conn.trace = messages s.conn.trace ++ sent)
    (hsent : ∀ message ∈ sent, WellFormed message) : AllFormed t := by
  intro message hmem
  rw [ht] at hmem
  rcases List.mem_append.mp hmem with hold | hnew
  · exact h message hold
  · exact hsent message hnew

/-- INTERNAL: on to the next guess, or to the end.
SOURCE: server.c:535-538, 583-622 -/
theorem formed_nextGuess {s : Session} (h : AllFormed s) :
    Outcome AllFormed (fun t => AllSent t.conn.trace → AllFormed t) (nextGuess s) := by
  refine (says_nextGuess s).mono (fun t ht => ?_) fun t ht hall => ?_
  · refine h.append ht.2.messages ?_
    simpa using wellFormed_none (by decide)
  · refine h.append (ht hall).2.messages ?_
    unfold verdictMessage
    split_ifs
    · simpa using wellFormed_none (by decide)
    · simpa using wellFormed_none (by decide)

/-- INTERNAL: what a guess leads to.
SOURCE: server.c:543-581 -/
theorem formed_checkGuess {s : Session} (r : Received) (h : AllFormed s)
    (hfew : s.guessesCount < maxGuessesCount) :
    Outcome AllFormed (fun t => AllSent t.conn.trace → AllFormed t) (checkGuess r s) := by
  have hreceived : AllFormed (afterReceive r s) := by
    unfold AllFormed
    rw [messages_afterReceive]
    exact h
  rw [checkGuess_eq]
  split_ifs
  · refine ((says_scoreGuess (afterReceive r s)).mono (fun t ht => ?_)
      fun t ht hall => absurd hall ht).bind fun t ht => formed_nextGuess ht
    refine hreceived.append ht.2 ?_
    have hcount : s.guessesCount + 1 < 100 := by
      have hmax : maxGuessesCount = 10 := rfl
      omega
    have hcode : secretCodeLen < 100 := by decide
    have hcounts := (counts_add_le (codeOf s.secretCode) (codeOf r.buf)).trans_lt hcode
    intro message hmem
    rw [List.mem_singleton.mp hmem]
    exact wellFormed_feedback hcount ((Nat.le_add_right _ _).trans_lt hcounts)
      ((Nat.le_add_left _ _).trans_lt hcounts)
  · refine (says_send (afterReceive r s) .guessInv none).mono (fun t ht => ?_)
      fun t ht hall => absurd hall ht
    refine hreceived.append ht.messages ?_
    simpa using wellFormed_none (by decide)

/-- INTERNAL: the beginning of a session.
SOURCE: server.c:497-538 -/
theorem formed_startSession (input : SessionInput) :
    Outcome AllFormed (fun t => AllSent t.conn.trace → AllFormed t) (startSession input) := by
  refine outcome_startSession AllFormed ?_ ?_ fun s hs => formed_nextGuess hs
  · intro message hmem
    simp [openedSession, Session.record, Connection.record, messages, incrementClientsNowCount,
      incrementClientsCount] at hmem
  · intro s text htext hs
    refine (says_send s .dispMsg (some text)).mono (fun t ht => ?_) fun t ht hall => absurd hall ht
    refine hs.append ht.messages ?_
    simpa using wellFormed_greeting htext

/-- A session that waits for a guess, on a socket that takes everything. -/
structure Asking (secret : List UInt8) (s : Session) : Prop where
  playing : Playing secret s
  phase : phase s.conn.trace = some .prompted
  clear : Clear s
  formed : AllFormed s

/-- A session that has ended, on a socket that takes everything. -/
structure Concluded (secret : List UInt8) (s : Session) : Prop where
  decided : Decided secret s
  phase : ∃ hasWon, phase s.conn.trace = some (.told hasWon)
  formed : AllFormed s

/-- The server's end of a game. -/
def Served (secret : List UInt8) (thread : SessionThread) : Prop :=
  ThreadWith (Asking secret) (Concluded secret) thread

/-- INTERNAL: the session thread of a new game.
SOURCE: server.c:497-538 -/
theorem served_start {input : SessionInput} (h : input.writes = []) :
    Served (secretOf input) (SessionThread.start input) ∧ (SessionThread.start input).done = [] := by
  refine threadWith_start ?_
  have hall := (clear_startSession h).and (((playing_startSession input).and
    (phase_startSession input)).and (formed_startSession input))
  apply hall.mono (fun s hs => ⟨hs.2.1.1, hs.2.1.2, hs.1, hs.2.2⟩)
  intro s hs
  exact absurd hs.1 hs.2.1.2

/-- INTERNAL: a guess is received.
SOURCE: server.c:543-581 -/
theorem Served.receive {thread : SessionThread} (h : Served secret thread)
    (hsecret : isValidSecretCode secret = true) (hgoes : thread.isEnded = false) (r : Received) :
    Served secret (thread.receive r) ∧ (thread.receive r).done = thread.done := by
  have hasking := h.goesOn hgoes
  refine ThreadWith.receive h hgoes ?_
  have hall := (hasking.clear.checkGuess r).and
    (((playing_checkGuess hsecret r thread.session hasking.playing).and
      (phase_checkGuess r hasking.phase)).and
      (formed_checkGuess r hasking.formed hasking.playing.few))
  exact hall.mono (fun s hs => ⟨hs.2.1.1, hs.2.1.2, hs.1, hs.2.2⟩)
    fun s hs => ⟨hs.2.1.1 hs.1, hs.2.1.2 hs.1, hs.2.2 hs.1⟩

/-- INTERNAL: the phase of the whole session. -/
theorem Served.exists_phase {thread : SessionThread} (h : Served secret thread) :
    ∃ p, phase thread.session.conn.trace = some p := by
  cases hended : thread.isEnded with
  | false => exact ⟨_, (h.goesOn hended).phase⟩
  | true =>
    obtain ⟨hasWon, hphase⟩ := (h.ended hended).phase
    exact ⟨_, hphase⟩

theorem Served.formed {thread : SessionThread} (h : Served secret thread) :
    AllFormed thread.session := by
  cases hended : thread.isEnded with
  | false => exact (h.goesOn hended).formed
  | true => exact (h.ended hended).formed

/-- INTERNAL: at most ten messages with feedback. -/
theorem Served.feedbacks {thread : SessionThread} (h : Served secret thread) :
    (feedbackPayloads (messages thread.session.conn.trace)).length ≤ maxGuessesCount := by
  have htranscript : ∃ ended, Transcript secret ended thread.session := by
    cases hended : thread.isEnded with
    | false => exact ⟨_, (h.goesOn hended).playing.transcript⟩
    | true => exact ⟨_, (h.ended hended).decided.transcript⟩
  obtain ⟨ended, htranscript⟩ := htranscript
  rw [htranscript.feedback, List.length_mapIdx]
  exact htranscript.atMost

/-- INTERNAL: what was sent is among the messages of the whole session. -/
theorem messages_done (thread : SessionThread) :
    messages thread.done <+: messages thread.session.conn.trace := by
  refine ⟨messages (thread.session.conn.trace.drop thread.performed), ?_⟩
  rw [← messages_append, SessionThread.done, List.take_append_drop]

/-! ## Both ends -/

/-- The state of a game: the messages the server has sent are those the client has `handled`,
the one it has `held` back, if any, and those `pending` on the connection; the client has
answered every prompt it has handled, and has printed what belongs to the messages. -/
structure Flows (secret : List UInt8) (g : PlayedGame) (handled held pending : List GpMessage) :
    Prop where
  served : Served secret g.thread
  sent : messages g.thread.done = handled ++ held ++ pending
  decoded : g.decoded = handled.map some
  idle : g.isHandling = false → held = []
  handling : g.isHandling = true → ∃ message, held = [message] ∧
    g.client.buffer = encodeGpMessage message
  toClient : g.toClient = pending.map encodeGpMessage
  guesses : g.guessesSent = promptsCount handled
  toServer : g.toServer.length + (checked g.thread.session.conn.trace).length = g.guessesSent
  whole : ∀ message ∈ g.toServer, message.length = gpSize
  buffer : g.client.buffer.length = gpSize
  ended : g.client.isEndGame = handled.any endsLoop
  printed : g.client.printed = handled.map outputOf

/-- INTERNAL: a message that was sent can be decoded. -/
theorem Flows.wellFormed {g : PlayedGame} {handled held pending : List GpMessage}
    (h : Flows secret g handled held pending) (message : GpMessage)
    (hmem : message ∈ handled ++ held ++ pending) : WellFormed message := by
  rw [← h.sent] at hmem
  exact h.served.formed message ((messages_done g.thread).subset hmem)

/-- INTERNAL: a new game. -/
theorem flows_initial {input : SessionInput} (h : input.writes = []) :
    Flows (secretOf input) (PlayedGame.initial input) [] [] [] := by
  obtain ⟨hserved, hdone⟩ := served_start h
  have hchecked : checked (SessionThread.start input).session.conn.trace = [] := by
    have hstart := checked_startSession input
    unfold SessionThread.start
    cases hresult : startSession input <;> rw [hresult] at hstart <;> exact hstart
  refine ⟨hserved, ?_, rfl, fun _ => rfl, fun hhandling => (by cases hhandling), rfl, rfl,
    ?_, ?_, ?_, rfl, rfl⟩
  · show messages (SessionThread.start input).done = _
    rw [hdone]
    rfl
  · show 0 + (checked (SessionThread.start input).session.conn.trace).length = 0
    rw [hchecked]
    rfl
  · intro message hmem
    cases hmem
  · exact List.length_replicate

/-- INTERNAL: the session of a thread that has received a guess. -/
theorem session_receive (r : Received) (thread : SessionThread) :
    (thread.receive r).session = sessionOf (checkGuess r thread.session) := by
  unfold SessionThread.receive
  cases checkGuess r thread.session <;> rfl

/-- INTERNAL: an event of the server; its messages are now on their way.
SOURCE: server.c:527-608 -/
theorem Flows.serverEvent {g : PlayedGame} {handled held pending : List GpMessage}
    (h : Flows secret g handled held pending) {event : ServerEvent}
    (hevent : g.thread.session.conn.trace[g.thread.performed]? = some event) :
    Flows secret
      { g with
        thread := g.thread.next
        toClient := g.toClient ++ (messages [event]).map encodeGpMessage }
      handled held (pending ++ messages [event]) := by
  refine ⟨ThreadWith.next h.served hevent, ?_, h.decoded, h.idle, h.handling, ?_, h.guesses,
    h.toServer, h.whole, h.buffer, h.ended, h.printed⟩
  · rw [done_next hevent, messages_append, h.sent, List.append_assoc (handled ++ held)]
  · rw [h.toClient, List.map_append]

/-- INTERNAL: the server takes a guess; it has sent nothing more yet.
SOURCE: server.c:546-549 -/
theorem Flows.serverReceive {g : PlayedGame} {handled held pending : List GpMessage}
    (hsecret : isValidSecretCode secret = true) (h : Flows secret g handled held pending)
    {message : List UInt8} {rest : List (List UInt8)} {r : Received}
    (hgoes : g.thread.isEnded = false) (hmessage : g.toServer = message :: rest) :
    Flows secret { g with thread := g.thread.receive r, toServer := rest }
      handled held pending := by
  obtain ⟨hserved, hsame⟩ := h.served.receive hsecret hgoes r
  have hchecked := checked_checkGuess r g.thread.session
  rw [← session_receive] at hchecked
  have htoServer := h.toServer
  rw [hmessage, List.length_cons] at htoServer
  refine ⟨hserved, ?_, h.decoded, h.idle, h.handling, h.toClient, h.guesses, ?_, ?_, h.buffer,
    h.ended, h.printed⟩
  · show messages (g.thread.receive r).done = _
    rw [hsame, h.sent]
  · show rest.length + (checked (g.thread.receive r).session.conn.trace).length = g.guessesSent
    rw [hchecked, List.length_append, List.length_singleton]
    omega
  · intro m hm
    apply h.whole m
    rw [hmessage]
    exact List.mem_cons_of_mem _ hm

/-- INTERNAL: the client takes the message that was sent first; it is in its buffer now.
SOURCE: client.c:82-84 -/
theorem Flows.clientReceive {g : PlayedGame} {handled held pending : List GpMessage}
    (h : Flows secret g handled held pending) {message : List UInt8}
    {rest : List (List UInt8)} {r : Received} (hidle : g.isHandling = false)
    (hmessage : g.toClient = message :: rest)
    (hreceive : receiveMessage g.client.buffer gpSize [.data message] = some r) :
    ∃ m pending', Flows secret
      { g with client := { g.client with buffer := r.buf }, isHandling := true, toClient := rest }
      handled [m] pending' := by
  have htoClient := h.toClient
  rw [hmessage] at htoClient
  cases pending with
  | nil => cases htoClient
  | cons m pending =>
    obtain ⟨rfl, rfl⟩ := List.cons.inj htoClient
    have hnone := h.idle hidle
    subst hnone
    have hlength := (decode_encode (h.wellFormed m (by simp))).2
    rw [receiveMessage_whole h.buffer hlength, Option.some.injEq] at hreceive
    subst hreceive
    refine ⟨m, pending, h.served, ?_, h.decoded, fun hidle => (by cases hidle),
      fun _ => ⟨m, rfl, rfl⟩, rfl, h.guesses, h.toServer, h.whole, hlength, h.ended, h.printed⟩
    rw [h.sent]
    simp

/-- INTERNAL: what the client does with the message in its buffer, whatever the user types.
SOURCE: client.c:86-125 -/
theorem Flows.handles {g : PlayedGame} {handled held pending : List GpMessage}
    (h : Flows secret g handled held pending) (hhandling : g.isHandling = true)
    (line : List UInt8) :
    ∃ message stdin sent, held = [message] ∧ decodeGpMessage g.client.buffer = some message ∧
      handleMessage (line ++ [newline]) g.client =
        .ok ({ buffer := List.replicate gpSize 0
               isEndGame := g.client.isEndGame || endsLoop message
               printed := g.client.printed ++ [outputOf message] }, stdin, sent) ∧
      sent.toList.length = (if message.1 = .guessReq ∨ message.1 = .guessInv then 1 else 0) ∧
      ∀ guess ∈ sent, guess.length = gpSize := by
  obtain ⟨message, rfl, hbuffer⟩ := h.handling hhandling
  have hformed := h.wellFormed message (by simp)
  have hdecode := (decode_encode hformed).1
  have hends := ends_encode hformed
  rw [← hbuffer] at hdecode hends
  obtain ⟨stdin, sent, hhandle, hcount, hwhole⟩ :=
    handleMessage_decoded line hdecode hends h.buffer
  exact ⟨message, stdin, sent, rfl, hdecode, hhandle, hcount, hwhole⟩

/-- INTERNAL: the client handles the message in its buffer, and answers it if it is a prompt.
SOURCE: client.c:86-125 -/
theorem Flows.clientHandle {g : PlayedGame} {handled held pending : List GpMessage}
    (h : Flows secret g handled held pending) (hhandling : g.isHandling = true)
    {line : List UInt8} {client : Client} {stdin : List UInt8} {sent : Option (List UInt8)}
    (hhandle : handleMessage (line ++ [newline]) g.client = .ok (client, stdin, sent)) :
    ∃ message, Flows secret
      { g with
        client := client
        isHandling := false
        toServer := g.toServer ++ sent.toList
        decoded := g.decoded ++ [decodeGpMessage g.client.buffer]
        guessesSent := g.guessesSent + sent.toList.length }
      (handled ++ [message]) [] pending := by
  obtain ⟨message, _, _, rfl, hdecode, hok, hcount, hwhole⟩ := h.handles hhandling line
  rw [hhandle, Except.ok.injEq, Prod.mk.injEq, Prod.mk.injEq] at hok
  obtain ⟨rfl, rfl, rfl⟩ := hok
  have hprompts : promptsCount (handled ++ [message]) =
      promptsCount handled + sent.toList.length := by
    rw [promptsCount_append, hcount]
    unfold promptsCount
    split_ifs with hprompt <;> simp [hprompt]
  refine ⟨message, h.served, ?_, ?_, fun _ => rfl, fun hhandling => (by cases hhandling),
    h.toClient, ?_, ?_, ?_, List.length_replicate, ?_, ?_⟩
  · show messages g.thread.done = _
    rw [h.sent, List.append_nil]
  · show g.decoded ++ _ = _
    rw [h.decoded, hdecode, List.map_append]
    rfl
  · show g.guessesSent + _ = _
    rw [hprompts, h.guesses]
  · show (g.toServer ++ _).length + (checked g.thread.session.conn.trace).length =
      g.guessesSent + _
    have htoServer := h.toServer
    rw [List.length_append]
    omega
  · intro m hm
    rcases List.mem_append.mp hm with hold | hnew
    · exact h.whole m hold
    · exact hwhole m (Option.mem_toList.mp hnew)
  · show (g.client.isEndGame || endsLoop message) = _
    rw [h.ended, List.any_append]
    simp
  · show g.client.printed ++ [outputOf message] = _
    rw [h.printed, List.map_append]
    rfl

/-- One turn keeps the state of a game.
SOURCE: server.c:527-608, client.c:82-125 -/
theorem flows_step {g g' : PlayedGame} (hsecret : isValidSecretCode secret = true)
    (h : ∃ handled held pending, Flows secret g handled held pending) (hstep : GameStep g g') :
    ∃ handled held pending, Flows secret g' handled held pending := by
  obtain ⟨handled, held, pending, h⟩ := h
  cases hstep with
  | serverEvent hevent => exact ⟨_, _, _, h.serverEvent hevent⟩
  | serverReceive _ hgoes hmessage _ => exact ⟨_, _, _, h.serverReceive hsecret hgoes hmessage⟩
  | clientReceive _ hidle hmessage hreceive =>
    obtain ⟨m, pending', h'⟩ := h.clientReceive hidle hmessage hreceive
    exact ⟨_, _, _, h'⟩
  | clientHandle hhandling line hline hlength hhandle =>
    obtain ⟨message, h'⟩ := h.clientHandle hhandling hhandle
    exact ⟨_, _, _, h'⟩

/-! ## Agreement -/

/-- The server waits for a guess. -/
def ServerWaits (g : PlayedGame) : Prop :=
  g.thread.performed = g.thread.session.conn.trace.length ∧ g.thread.isEnded = false

/-- The client waits for a message. -/
def ClientWaits (g : PlayedGame) : Prop := g.client.isEndGame = false ∧ g.isHandling = false

/-- What the two ends agree on, when the client has `handled` these messages. -/
structure Agreement (g : PlayedGame) (handled : List GpMessage) : Prop where
  /-- the client has decoded, in order, what the server has encoded -/
  decoded : g.decoded = handled.map some
  encoded : handled <+: messages g.thread.done
  /-- at most one guess is on its way or not answered yet -/
  unanswered : g.guessesSent ≤ answersCount handled + 1
  inFlight : g.toServer.length ≤ 1
  guesses : g.guessesSent = promptsCount handled
  noDeadlock : ¬ (ServerWaits g ∧ ClientWaits g ∧ g.toClient = [] ∧ g.toServer = [])
  win : g.client.isEndGame = true →
    (.win ∈ g.client.printed ↔ .count .clientsWinCount 1 ∈ g.thread.done)
  lose : g.client.isEndGame = true →
    (.lose ∈ g.client.printed ↔ .log .failureGameOver ∈ g.thread.done)
  feedbacks : (feedbackPayloads handled).length ≤ maxGuessesCount
  whole : ∀ message ∈ g.toServer ++ g.toClient, message.length = gpSize
  /-- the client never goes on behind its buffer, whatever the user types -/
  inside : g.isHandling = true → ∀ line, ∃ next, handleMessage (line ++ [newline]) g.client = .ok next

/-- INTERNAL: who is told to have won, and who to have lost. -/
theorem mem_map_outputOf (handled : List GpMessage) :
    (.win ∈ handled.map outputOf ↔ .gameSucc ∈ handled.map Prod.fst) ∧
      (.lose ∈ handled.map outputOf ↔ .gameFail ∈ handled.map Prod.fst) := by
  have hone : ∀ message : GpMessage, (outputOf message = .win ↔ message.1 = .gameSucc) ∧
      (outputOf message = .lose ↔ message.1 = .gameFail) := by
    rintro ⟨msgType, msgPayload⟩
    cases msgType <;> simp [outputOf]
  simp only [List.mem_map]
  exact ⟨exists_congr fun message => and_congr_right fun _ => (hone message).1,
    exists_congr fun message => and_congr_right fun _ => (hone message).2⟩

/-- INTERNAL: a client that has left its loop was told how the game ended.
SOURCE: client.c:108-122, server.c:583-608 -/
theorem told_of_ended {events : List ServerEvent} {p : Phase} {handled : List GpMessage}
    (h : Tallies events p) (hhandled : handled <+: messages events)
    (hended : handled.any endsLoop = true) :
    (.gameSucc ∈ handled.map Prod.fst ↔ .count .clientsWinCount 1 ∈ events) ∧
      (.gameFail ∈ handled.map Prod.fst ↔ .log .failureGameOver ∈ events) := by
  have hsubset : handled.map Prod.fst ⊆ (messages events).map Prod.fst :=
    List.map_subset _ hhandled.subset
  have hverdict : .gameSucc ∈ handled.map Prod.fst ∨ .gameFail ∈ handled.map Prod.fst := by
    obtain ⟨⟨msgType, msgPayload⟩, hmem, hends⟩ := List.any_eq_true.mp hended
    have htype := List.mem_map_of_mem (f := Prod.fst) hmem
    cases msgType with
    | gameSucc => exact Or.inl htype
    | gameFail => exact Or.inr htype
    | servFull => exact absurd (hsubset htype) h.full
    | _ => cases hends
  rw [h.win, h.loss]
  rcases hverdict with hsucc | hfail
  · have hp := h.success.mp (hsubset hsucc)
    subst hp
    have hnot : .gameFail ∉ handled.map Prod.fst := fun hfail => by
      cases h.failure.mp (hsubset hfail)
    simp [hsucc, hnot]
  · have hp := h.failure.mp (hsubset hfail)
    subst hp
    have hnot : .gameSucc ∉ handled.map Prod.fst := fun hsucc => by
      cases h.success.mp (hsubset hsucc)
    simp [hfail, hnot]

/-- INTERNAL: agreement, from the state of a game. -/
theorem Flows.agreement {g : PlayedGame} {handled held pending : List GpMessage}
    (h : Flows secret g handled held pending) : Agreement g handled := by
  obtain ⟨p, hp⟩ := h.served.exists_phase
  have hencoded : handled <+: messages g.thread.done := ⟨held ++ pending, by rw [h.sent, List.append_assoc]⟩
  have htrace := hencoded.trans (messages_done g.thread)
  obtain ⟨q, hq⟩ := phase_take hp g.thread.performed
  have hdone : Tallies g.thread.done q := tallies_of_phase hq
  have hwhole := tallies_of_phase hp
  refine ⟨h.decoded, hencoded, ?_, ?_, h.guesses, ?_, ?_, ?_, ?_, ?_, ?_⟩
  · -- the messages that were handled are what some beginning of the trace has sent
    obtain ⟨k, hk⟩ := exists_take_messages g.thread.session.conn.trace handled.length
    rw [← List.prefix_iff_eq_take.mp htrace] at hk
    obtain ⟨q', hq'⟩ := phase_take hp k
    have hanswers := (tallies_of_phase hq').answers
    rw [hk] at hanswers
    rw [h.guesses, hanswers]
    split_ifs <;> omega
  · have hle : promptsCount handled ≤ promptsCount (messages g.thread.session.conn.trace) :=
      htrace.sublist.countP_le
    have hprompts := hwhole.prompts
    have htoServer := h.toServer
    have hguesses := h.guesses
    split_ifs at hprompts <;> omega
  · rintro ⟨⟨hperformed, hgoes⟩, ⟨-, hidle⟩, hclient, hserver⟩
    have hpending : pending = [] := List.map_eq_nil_iff.mp (h.toClient.symm.trans hclient)
    have hall : g.thread.done = g.thread.session.conn.trace := by
      unfold SessionThread.done
      rw [hperformed, List.take_length]
    have hsent := h.sent
    rw [h.idle hidle, hpending, List.append_nil, List.append_nil, hall] at hsent
    have hprompts := (tallies_of_phase (h.served.goesOn hgoes).phase).prompts
    have htoServer := h.toServer
    rw [hserver, h.guesses, ← hsent, hprompts, if_pos rfl, List.length_nil] at htoServer
    omega
  · intro hended
    rw [h.ended] at hended
    rw [h.printed, (mem_map_outputOf handled).1]
    exact (told_of_ended hdone hencoded hended).1
  · intro hended
    rw [h.ended] at hended
    rw [h.printed, (mem_map_outputOf handled).2]
    exact (told_of_ended hdone hencoded hended).2
  · have hsub : (feedbackPayloads handled).Sublist
        (feedbackPayloads (messages g.thread.session.conn.trace)) := htrace.sublist.filterMap _
    exact hsub.length_le.trans h.served.feedbacks
  · intro message hmem
    rcases List.mem_append.mp hmem with hback | hforth
    · exact h.whole message hback
    · rw [h.toClient] at hforth
      obtain ⟨m, hm, rfl⟩ := List.mem_map.mp hforth
      exact (decode_encode (h.wellFormed m (List.mem_append_right _ hm))).2
  · intro hhandling line
    obtain ⟨_, _, _, -, -, hhandle, -⟩ := h.handles hhandling line
    exact ⟨_, hhandle⟩

/-- **The client and the server agree.** For every secret and every lines the user types, in
every state of a game over a reliable connection, in whatever order the two sides have taken
their turns: the client has decoded the messages the server has encoded, in their order; it
has sent one guess for each request and each notice of an invalid guess it has handled, and at
most one guess is on its way or unanswered; the two never wait for each other with nothing on
the connection; at most ten messages have brought feedback; a client that has left its loop
has printed that it has won exactly if the server has counted a win, and that it has lost
exactly if the server has logged it; and the client never goes on behind its buffer.
SOURCE: server.c:527-608, client.c:82-125 -/
theorem client_server_agreement (input : SessionInput) (hwrites : input.writes = [])
    (g : PlayedGame) (hrun : Relation.ReflTransGen GameStep (PlayedGame.initial input) g) :
    ∃ handled, Agreement g handled := by
  have hflows : ∃ handled held pending, Flows (secretOf input) g handled held pending := by
    induction hrun with
    | refl => exact ⟨[], [], [], flows_initial hwrites⟩
    | tail _ hstep ih => exact flows_step (isValid_secretOf input) ih hstep
  obtain ⟨handled, held, pending, h⟩ := hflows
  exact ⟨handled, h.agreement⟩

/-! ## A game that is won -/

/-- One turn, when the client goes first, then the server, and the user always types the same
line; the game itself when nobody can take a turn. -/
def gameTurn (line : List UInt8) (g : PlayedGame) : PlayedGame :=
  if g.isHandling = true then
    match handleMessage (line ++ [newline]) g.client with
    | .ok (client, _, sent) =>
      { g with
        client := client
        isHandling := false
        toServer := g.toServer ++ sent.toList
        decoded := g.decoded ++ [decodeGpMessage g.client.buffer]
        guessesSent := g.guessesSent + sent.toList.length }
    | .error _ => g
  else
    match g.thread.session.conn.trace[g.thread.performed]?, g.toClient, g.toServer with
    | some event, _, _ =>
      { g with
        thread := g.thread.next
        toClient := g.toClient ++ (messages [event]).map encodeGpMessage }
    | none, message :: rest, _ =>
      match receiveMessage g.client.buffer gpSize [.data message] with
      | some r =>
        if g.client.isEndGame = false then
          { g with client := { g.client with buffer := r.buf }, isHandling := true, toClient := rest }
        else g
      | none => g
    | none, [], message :: rest =>
      match receiveMessage g.thread.session.conn.buffer gpSize [.data message] with
      | some r =>
        if g.thread.performed = g.thread.session.conn.trace.length ∧ g.thread.isEnded = false then
          { g with thread := g.thread.receive r, toServer := rest }
        else g
      | none => g
    | none, [], [] => g

/-- INTERNAL: it is a turn of the game, or none. -/
theorem gameTurn_run {line : List UInt8} (hline : newline ∉ line)
    (hlength : line.length ≤ maxLineLength) (g : PlayedGame) :
    Relation.ReflTransGen GameStep g (gameTurn line g) := by
  unfold gameTurn
  by_cases hhandling : g.isHandling = true
  · rw [if_pos hhandling]
    split
    · exact Relation.ReflTransGen.single (.clientHandle hhandling line hline hlength ‹_›)
    · exact Relation.ReflTransGen.refl
  · rw [if_neg hhandling]
    split
    · exact Relation.ReflTransGen.single (.serverEvent ‹_›)
    · split
      · split
        · exact Relation.ReflTransGen.single
            (.clientReceive ‹_› (Bool.eq_false_of_not_eq_true hhandling) ‹_› ‹_›)
        · exact Relation.ReflTransGen.refl
      · exact Relation.ReflTransGen.refl
    · split
      · split
        · rename_i hwaits
          exact Relation.ReflTransGen.single (.serverReceive hwaits.1 hwaits.2 ‹_› ‹_›)
        · exact Relation.ReflTransGen.refl
      · exact Relation.ReflTransGen.refl
    · exact Relation.ReflTransGen.refl

/-- INTERNAL: so many turns. -/
theorem gameTurns_run {line : List UInt8} (hline : newline ∉ line)
    (hlength : line.length ≤ maxLineLength) (g : PlayedGame) (n : ℕ) :
    Relation.ReflTransGen GameStep g ((gameTurn line)^[n] g) := by
  induction n with
  | zero => exact Relation.ReflTransGen.refl
  | succ n ih =>
    rw [Function.iterate_succ_apply']
    exact ih.trans (gameTurn_run hline hlength _)

/-- A server without a code of its own whose random numbers are all zero, so that the secret
is the first colour four times. -/
def plainInput : SessionInput :=
  { secretCode := [], stackBuffer := [], rand := fun _ => 0, reads := [], writes := [] }

/-- A user who types the secret at once wins after 48 turns. -/
theorem client_server_agreement_won :
    ∃ g handled, Agreement g handled ∧ g.client.isEndGame = true ∧
      .count .clientsWinCount 1 ∈ g.thread.done := by
  have hrun := gameTurns_run (show newline ∉ ascii "AAAA" by decide) (by decide)
    (PlayedGame.initial plainInput) 48
  have hend : (((gameTurn (ascii "AAAA"))^[48] (PlayedGame.initial plainInput)).client.isEndGame &&
      ((gameTurn (ascii "AAAA"))^[48] (PlayedGame.initial plainInput)).client.printed.contains .win) =
        true := by
    decide +kernel
  rw [Bool.and_eq_true, List.contains_iff_mem] at hend
  obtain ⟨handled, h⟩ := client_server_agreement plainInput rfl _ hrun
  exact ⟨_, handled, h, hend.1, (h.win hend.1).mp hend.2⟩

end Comp30023.Analysis
