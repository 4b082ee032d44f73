import Comp30023.Interface.Transcript

/-!
# The transcript of a game

What a client that gets all messages sees of a game: feedback on every valid guess and on
nothing else, numbered from one, until a guess is the secret or ten guesses have missed it.
-/

set_option autoImplicit false

namespace Comp30023.Analysis

open Comp30023.Library Comp30023.Model Comp30023.Interface

variable {secret : List UInt8}

/-- The payload with the feedback on a guess that `i` guesses came before. -/
def feedbackFor (secret : List UInt8) (i : ℕ) (guess : List UInt8) : Option (List UInt8) :=
  let feedback := getSecretCodeGuessFeedback (codeOf secret) (codeOf guess)
  some (feedbackMessage (i + 1) feedback.correctPositionsCount feedback.correctColorsCount)

/-- Every valid guess is counted and was answered with the feedback on it. -/
structure Answered (secret : List UInt8) (s : Session) : Prop where
  code : s.secretCode = secret
  count : s.guessesCount = (guesses s.conn.trace).length
  feedback : feedbackPayloads (messages s.conn.trace) =
    (guesses s.conn.trace).mapIdx (feedbackFor secret)

/-- No guess was the secret. -/
def Missed (secret : List UInt8) (s : Session) : Prop :=
  ∀ guess ∈ guesses s.conn.trace, cString guess ≠ cString secret

/-- The last guess was the secret. -/
def Hit (secret : List UInt8) (s : Session) : Prop :=
  ∃ guess, (guesses s.conn.trace).getLast? = some guess ∧ cString guess = cString secret

/-- The last message is one of these. -/
def LastMessage (s : Session) (types : List GpMessageType) : Prop :=
  ∃ msgType ∈ types, (messages s.conn.trace).getLast? = some (msgType, none)

/-- A game that goes on: fewer than ten guesses, none of them the secret, and another guess
was asked for. -/
structure Playing (secret : List UInt8) (s : Session) : Prop where
  answered : Answered secret s
  few : s.guessesCount < maxGuessesCount
  missed : Missed secret s
  prompt : LastMessage s [.guessReq, .guessInv]

/-- A game that is over: won by the last guess, or lost by ten guesses. -/
structure Decided (secret : List UInt8) (s : Session) : Prop where
  answered : Answered secret s
  verdict : (s.guessesCount ≤ maxGuessesCount ∧ Hit secret s ∧ LastMessage s [.gameSucc]) ∨
    (s.guessesCount = maxGuessesCount ∧ Missed secret s ∧ LastMessage s [.gameFail])

/-- INTERNAL: a message without feedback. -/
theorem Answered.after {s t : Session} {sent : List GpMessage} (h : Answered secret s)
    (hspoke : Says s sent t) (hsent : feedbackPayloads sent = []) : Answered secret t := by
  refine ⟨hspoke.game.secret.trans h.code, ?_, ?_⟩
  · rw [hspoke.game.guesses, h.count, guesses_of_sameGame hspoke.game]
  · rw [hspoke.messages, feedbackPayloads_append, hsent, List.append_nil, h.feedback,
      guesses_of_sameGame hspoke.game]

theorem Missed.after {s t : Session} {sent : List GpMessage} (h : Missed secret s)
    (hspoke : Says s sent t) : Missed secret t := by
  unfold Missed
  rw [guesses_of_sameGame hspoke.game]
  exact h

theorem lastMessage_of_spoken {s t : Session} {msgType : GpMessageType}
    {types : List GpMessageType} (hspoke : Says s [(msgType, none)] t) (h : msgType ∈ types) :
    LastMessage t types := by
  refine ⟨msgType, h, ?_⟩
  rw [hspoke.messages, List.getLast?_concat]

/-- INTERNAL: from a scored guess to the next one, or to the verdict.
SOURCE: server.c:535-608 -/
theorem playing_nextGuess {s : Session} (h : Answered secret s)
    (hcount : s.guessesCount ≤ maxGuessesCount) (hle : s.correctPositionsCount ≤ secretCodeLen)
    (hhit : s.correctPositionsCount = secretCodeLen → Hit secret s)
    (hmiss : s.correctPositionsCount ≠ secretCodeLen → Missed secret s) :
    Outcome (Playing secret) (fun t => AllSent t.conn.trace → Decided secret t) (nextGuess s) := by
  refine (says_nextGuess s).mono ?_ ?_
  · rintro t ⟨⟨hfew, hpositions⟩, hspoke⟩
    refine ⟨h.after hspoke rfl, ?_, (hmiss hpositions.ne).after hspoke, lastMessage_of_spoken hspoke (by simp)⟩
    rw [hspoke.game.guesses]
    exact hfew
  · intro t ht hall
    obtain ⟨hover, hspoke⟩ := ht hall
    have hanswered : Answered secret t := by
      refine h.after hspoke ?_
      unfold verdictMessage
      split_ifs <;> rfl
    refine ⟨hanswered, ?_⟩
    rw [hspoke.game.guesses]
    unfold verdictMessage at hspoke
    by_cases hwon : s.correctPositionsCount = secretCodeLen
    · rw [if_pos hwon] at hspoke
      refine Or.inl ⟨hcount, ?_, lastMessage_of_spoken hspoke (by simp)⟩
      unfold Hit
      rw [guesses_of_sameGame hspoke.game]
      exact hhit hwon
    · rw [if_neg hwon] at hspoke
      refine Or.inr ⟨?_, (hmiss hwon).after hspoke, lastMessage_of_spoken hspoke (by simp)⟩
      unfold goesOn at hover
      omega

/-- INTERNAL: a guess that was scored.
SOURCE: server.c:555-580 -/
theorem answered_scored {r : Received} {s t : Session} (h : Playing secret s)
    (hvalid : isValidSecretCode r.buf = true) (hscores : Scores (afterReceive r s) t)
    (hmessages : messages t.conn.trace = messages (afterReceive r s).conn.trace ++
      [(.guessFbk, some (feedbackPayload (afterReceive r s)))]) :
    Answered secret t ∧ guesses t.conn.trace = guesses s.conn.trace ++ [r.buf] := by
  have hguesses : guesses t.conn.trace = guesses s.conn.trace ++ [r.buf] := by
    have hreceived := guesses_afterReceive r s
    rw [if_pos hvalid] at hreceived
    rw [← hreceived]
    unfold guesses
    rw [hscores.checked]
  refine ⟨⟨hscores.secret.trans h.answered.code, ?_, ?_⟩, hguesses⟩
  · rw [hguesses, List.length_append, ← h.answered.count]
    exact hscores.guesses
  · rw [hmessages, messages_afterReceive, feedbackPayloads_append, h.answered.feedback, hguesses,
      List.mapIdx_concat, ← h.answered.count, ← h.answered.code]
    rfl

/-- INTERNAL: what a guess leads to.
SOURCE: server.c:543-581 -/
theorem playing_checkGuess (hsecret : isValidSecretCode secret = true) (r : Received) (s : Session)
    (h : Playing secret s) :
    Outcome (Playing secret) (fun t => AllSent t.conn.trace → Decided secret t) (checkGuess r s) := by
  rw [checkGuess_eq]
  split_ifs with hvalid
  · refine ((says_scoreGuess (afterReceive r s)).mono (fun t ht => ht)
      fun t ht hall => absurd hall ht).bind ?_
    rintro t ⟨hscores, hmessages⟩
    obtain ⟨hanswered, hguesses⟩ := answered_scored h hvalid hscores hmessages
    have hposition : t.correctPositionsCount = secretCodeLen ↔ cString r.buf = cString secret := by
      rw [hscores.positions, ← codeOf_eq_iff hvalid hsecret, ← h.answered.code]
      exact correctPositionsCount_eq_length _ _
    refine playing_nextGuess hanswered ?_ ?_ ?_ ?_
    · have hcount : t.guessesCount = s.guessesCount + 1 := hscores.guesses
      have hfew := h.few
      omega
    · rw [hscores.positions]
      exact correctPositionsCount_le _ _
    · intro hwon
      refine ⟨r.buf, ?_, hposition.mp hwon⟩
      rw [hguesses, List.getLast?_concat]
    · intro hlost guess hguess
      rw [hguesses] at hguess
      rcases List.mem_append.mp hguess with hold | hnew
      · exact h.missed guess hold
      · rw [List.mem_singleton.mp hnew]
        intro heq
        exact hlost (hposition.mpr heq)
  · have hgame : guesses (afterReceive r s).conn.trace = guesses s.conn.trace := by
      rw [guesses_afterReceive, if_neg hvalid, List.append_nil]
    have hreceived : Answered secret (afterReceive r s) := by
      refine ⟨h.answered.code, ?_, ?_⟩
      · rw [hgame]
        exact h.answered.count
      · rw [hgame, messages_afterReceive]
        exact h.answered.feedback
    refine (says_send (afterReceive r s) .guessInv none).mono (fun t ht => ?_)
      fun t ht hall => absurd hall ht
    refine ⟨hreceived.after ht rfl, ?_, Missed.after ?_ ht, lastMessage_of_spoken ht (by simp)⟩
    · rw [ht.game.guesses]
      exact h.few
    · unfold Missed
      rw [hgame]
      exact h.missed

/-- INTERNAL: a game without guesses. -/
structure Begins (secret : List UInt8) (s : Session) : Prop where
  answered : Answered secret s
  none : guesses s.conn.trace = []
  positions : s.correctPositionsCount = 0

/-- INTERNAL: the beginning of a session.
SOURCE: server.c:497-538 -/
theorem playing_startSession (input : SessionInput) :
    Outcome (Playing (secretOf input))
      (fun t => AllSent t.conn.trace → Decided (secretOf input) t) (startSession input) := by
  refine outcome_startSession (Begins (secretOf input)) ⟨⟨rfl, rfl, rfl⟩, rfl, rfl⟩ ?_ ?_
  · intro s text _ hs
    refine (says_send s .dispMsg _).mono (fun t ht => ?_) fun t ht hall => absurd hall ht
    refine ⟨hs.answered.after ht rfl, ?_, ht.game.positions.trans hs.positions⟩
    rw [guesses_of_sameGame ht.game]
    exact hs.none
  · intro s hs
    refine playing_nextGuess hs.answered ?_ ?_ ?_ ?_
    · rw [hs.answered.count, hs.none]
      decide
    · rw [hs.positions]
      decide
    · intro hwon
      rw [hs.positions] at hwon
      exact absurd hwon (by decide)
    · intro _ guess hguess
      rw [hs.none] at hguess
      cases hguess

/-- The session at which a run stands.
SOURCE: server.c:483-623 -/
def sessionAt : Except Stop (Pass (Session × List ReadOutcome)) → Session
  | .ok p => p.state.1
  | .error stop => stop.session

/-- The thread has ended. -/
def hasEnded : Except Stop (Pass (Session × List ReadOutcome)) → Bool
  | .error (.ended _) => true
  | _ => false

theorem Missed.not_hit {s : Session} (h : Missed secret s) : ¬ Hit secret s := by
  rintro ⟨guess, hlast, heq⟩
  exact h guess (List.mem_of_getLast? hlast) heq

/-- INTERNAL: there is only one last message. -/
theorem lastMessage_unique {s : Session} {types types' : List GpMessageType}
    (h : LastMessage s types) (h' : LastMessage s types') (hdisjoint : List.Disjoint types types') :
    False := by
  obtain ⟨msgType, hmem, hlast⟩ := h
  obtain ⟨msgType', hmem', hlast'⟩ := h'
  have heq := Option.some.inj (hlast.symm.trans hlast')
  exact hdisjoint hmem ((Prod.mk.inj heq).1 ▸ hmem')

/-- What the client has seen when the session is at `s`, and has or has not `ended`: the
messages with feedback are numbered from one, one for each valid guess, with the feedback on
it, and there are at most ten; the session goes on exactly while there are fewer than ten
valid guesses and none of them is the secret; the last message is SUCCESS exactly if the last
valid guess is the secret, and FAILURE exactly if ten valid guesses have missed it. -/
structure Transcript (secret : List UInt8) (ended : Bool) (s : Session) : Prop where
  code : s.secretCode = secret
  feedback : feedbackPayloads (messages s.conn.trace) =
    (guesses s.conn.trace).mapIdx (feedbackFor secret)
  atMost : (guesses s.conn.trace).length ≤ maxGuessesCount
  goesOn : ended = false ↔
    (guesses s.conn.trace).length < maxGuessesCount ∧ Missed secret s
  success : LastMessage s [.gameSucc] ↔ Hit secret s
  failure : LastMessage s [.gameFail] ↔
    (guesses s.conn.trace).length = maxGuessesCount ∧ Missed secret s

theorem Playing.transcript {s : Session} (h : Playing secret s) : Transcript secret false s := by
  have hfew := h.few
  rw [h.answered.count] at hfew
  refine ⟨h.answered.code, h.answered.feedback, hfew.le, iff_of_true rfl ⟨hfew, h.missed⟩, ?_, ?_⟩
  · exact iff_of_false (fun hlast => lastMessage_unique h.prompt hlast (by simp)) h.missed.not_hit
  · exact iff_of_false (fun hlast => lastMessage_unique h.prompt hlast (by simp))
      fun hlost => hfew.ne hlost.1

theorem Decided.transcript {s : Session} (h : Decided secret s) : Transcript secret true s := by
  have hverdict := h.verdict
  rw [h.answered.count] at hverdict
  rcases hverdict with ⟨hcount, hhit, hlast⟩ | ⟨hcount, hmissed, hlast⟩
  · have hnot : ¬ Missed secret s := by
      intro hmissed
      exact hmissed.not_hit hhit
    exact ⟨h.answered.code, h.answered.feedback, hcount,
      iff_of_false (by simp) fun hgoes => hnot hgoes.2, iff_of_true hlast hhit,
      iff_of_false (fun hfail => lastMessage_unique hlast hfail (by simp)) fun hlost => hnot hlost.2⟩
  · exact ⟨h.answered.code, h.answered.feedback, hcount.le,
      iff_of_false (by simp) fun hgoes => hgoes.1.ne hcount,
      iff_of_false (fun hwin => lastMessage_unique hlast hwin (by simp)) hmissed.not_hit,
      iff_of_true hlast ⟨hcount, hmissed⟩⟩

/-- **The transcript of a game.** For every secret buffer, every sequence of random numbers and
whatever the client sends, as long as it gets all messages: the secret is a valid code, and
what the client has seen is a transcript of a game for it.
SOURCE: server.c:515-608, secret-code.c:18-114 -/
theorem game_transcript (input : SessionInput) (n : ℕ)
    (hall : AllSent (sessionAt (pthreadRoutine input n)).conn.trace) :
    isValidSecretCode (secretOf input) = true ∧
      Transcript (secretOf input) (hasEnded (pthreadRoutine input n))
        (sessionAt (pthreadRoutine input n)) := by
  have hvalid := isValid_secretOf input
  refine ⟨hvalid, ?_⟩
  have hrun := outcome_pthreadRoutine (playing_startSession input) (playing_checkGuess hvalid) n
  cases hresult : pthreadRoutine input n with
  | ok p =>
    rw [hresult] at hrun
    exact Playing.transcript hrun
  | error stop =>
    rw [hresult] at hrun hall
    cases stop with
    | waiting t => exact Playing.transcript hrun
    | ended t => exact Decided.transcript (hrun hall)

/-- A client that sends an invalid guess and then the secret. -/
def luckyClient : SessionInput :=
  { secretCode := ascii "FACE", stackBuffer := [], rand := fun _ => 0, writes := []
    reads := [.data (ascii "face" ++ List.replicate 188 0), .data (ascii "FACE" ++ List.replicate 188 0)] }

/-- A game that is won by its first valid guess. -/
theorem game_transcript_lucky :
    AllSent (sessionAt (pthreadRoutine luckyClient 2)).conn.trace ∧
      hasEnded (pthreadRoutine luckyClient 2) = true ∧
      Transcript (secretOf luckyClient) (hasEnded (pthreadRoutine luckyClient 2))
        (sessionAt (pthreadRoutine luckyClient 2)) :=
  have hall : AllSent (sessionAt (pthreadRoutine luckyClient 2)).conn.trace := by decide +kernel
  ⟨hall, by decide +kernel, (game_transcript luckyClient 2 hall).2⟩

end Comp30023.Analysis
