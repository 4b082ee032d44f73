import Comp30023.Interface.SessionBooks
import Comp30023.Interface.SessionGame

/-!
# The life of a session thread

A session thread can end in three ways inside `send_gp_message` or by itself, from eight
places. Whichever it is, it has counted itself once in and once out, has closed its socket
once, and holds no mutex; it has counted a win only after the secret was guessed.
-/

set_option autoImplicit false

namespace Comp30023.Analysis

open Comp30023.Library Comp30023.Model Comp30023.Interface

variable {input : SessionInput}

/-- A session that waits for a guess: it is counted, and plays for the secret. -/
def Waits (input : SessionInput) (s : Session) : Prop :=
  Counted [] s ∧ s.secretCode = secretOf input

/-- A session that has ended: its books are closed, with a win at most for the secret. -/
def Ended (input : SessionInput) (s : Session) : Prop :=
  ∃ wins, books s.conn.trace = some (closedBooks wins) ∧
    (wins = [] ∨ wins = [1] ∧ (scored s.conn.trace).getLast? = some (cString (secretOf input)))

/-- INTERNAL: the books of a session that has ended without a win. -/
theorem ended_of_closed {s : Session} (h : Closed [] s) : Ended input s := ⟨[], h, Or.inl rfl⟩

/-- INTERNAL: a message that is sent between two guesses. -/
theorem waits_send {s : Session} (h : Waits input s) (msgType : GpMessageType)
    (msgPayload : Option (List UInt8)) :
    Outcome (Waits input) (Ended input) (s.send msgType msgPayload) :=
  ((counted_send h.1 msgType msgPayload).and (sameGame_send s msgType msgPayload)).mono
    (fun _ ht => ⟨ht.1, ht.2.secret.trans h.2⟩) fun _ ht => ended_of_closed ht.1

/-- INTERNAL: on to the next guess, when a game that is won was won by the last guess. -/
theorem waits_nextGuess {s : Session} (h : Waits input s)
    (hwon : s.correctPositionsCount = secretCodeLen →
      (scored s.conn.trace).getLast? = some (cString (secretOf input))) :
    Outcome (Waits input) (Ended input) (nextGuess s) := by
  refine ((counted_nextGuess h.1).and (sameGame_nextGuess s)).mono
    (fun t ht => ⟨ht.1, ht.2.secret.trans h.2⟩) ?_
  rintro t ⟨⟨wins, hbooks, hwins⟩, hsame⟩
  refine ⟨wins, hbooks, hwins.imp id fun ⟨hone, hpositions⟩ => ⟨hone, ?_⟩⟩
  rw [hsame.scored]
  exact hwon hpositions

/-- INTERNAL: a guess with all positions correct is the secret.
SOURCE: server.c:555-584 -/
theorem getLast_of_scores {s t : Session} (hsecret : s.secretCode = secretOf input)
    (hvalid : isValidSecretCode s.conn.buffer = true) (h : Scores s t)
    (hpositions : t.correctPositionsCount = secretCodeLen) :
    (scored t.conn.trace).getLast? = some (cString (secretOf input)) := by
  have hcode : codeOf s.conn.buffer = codeOf s.secretCode := by
    rw [← correctPositionsCount_eq_length]
    exact h.positions.symm.trans hpositions
  rw [hsecret, codeOf_eq_iff hvalid (isValid_secretOf input)] at hcode
  rw [h.scored, List.getLast?_concat, hcode]

/-- INTERNAL: what a guess leads to.
SOURCE: server.c:543-581 -/
theorem waits_checkGuess (r : Received) (s : Session) (h : Waits input s) :
    Outcome (Waits input) (Ended input) (checkGuess r s) := by
  have hreceived : Waits input (afterReceive r s) := ⟨books_record h.1 rfl, h.2⟩
  rw [checkGuess_eq]
  split_ifs with hvalid
  · have hscore := (counted_scoreGuess hreceived.1).and (scores_scoreGuess (afterReceive r s))
    refine (hscore.mono (fun t ht => ht) fun t ht => ended_of_closed ht.1).bind ?_
    rintro t ⟨hcounted, hscores⟩
    exact waits_nextGuess ⟨hcounted, hscores.secret.trans hreceived.2⟩
      (getLast_of_scores hreceived.2 hvalid hscores)
  · exact waits_send hreceived _ _

/-- INTERNAL: a session gets to its first guess, or ends before.
SOURCE: server.c:497-538 -/
theorem waits_startSession (input : SessionInput) :
    Outcome (Waits input) (Ended input) (startSession input) := by
  refine outcome_startSession (fun s => Waits input s ∧ s.correctPositionsCount = 0)
    ⟨⟨rfl, rfl⟩, rfl⟩ ?_ ?_
  · intro s text _ hs
    exact ((waits_send hs.1 _ _).and (sameGame_send s _ _)).mono
      (fun _ ht => ⟨ht.1, ht.2.positions.trans hs.2⟩) fun _ ht => ht.1
  · intro s hs
    apply waits_nextGuess hs.1
    intro hwon
    rw [hs.2] at hwon
    exact absurd hwon (by decide)

/-- **The lifecycle of a session is exact on every path.** However a session thread ends, it
has counted itself once into `clients_now_count` and afterwards once out of it, and once into
`clients_count`; it has closed its socket exactly once and not used it since; it has counted
at most one win, and that only if the last guess it scored is the secret. It never locks a
mutex it holds or unlocks one it does not hold, and holds none when it ends. Whenever it
waits for a guess it is counted, has its socket open and holds no mutex.
SOURCE: server.c:161-257, 483-623 -/
theorem session_lifecycle (input : SessionInput) (n : ℕ) :
    (∀ s, pthreadRoutine input n = .error (.ended s) →
      ∃ wins, books s.conn.trace = some
          { now := [1, -1], total := [1], wins := wins, closed := true, held := [] } ∧
        (wins = [] ∨
          wins = [1] ∧ (scored s.conn.trace).getLast? = some (cString (secretOf input)))) ∧
    ∀ s, (pthreadRoutine input n = .error (.waiting s) ∨
        ∃ reads, pthreadRoutine input n = .ok (.again (s, reads))) →
      books s.conn.trace = some
        { now := [1], total := [1], wins := [], closed := false, held := [] } := by
  have hrun := outcome_pthreadRoutine (waits_startSession input) waits_checkGuess n
  refine ⟨fun s hs => ?_, fun s hs => ?_⟩
  · rw [hs] at hrun
    exact hrun
  · rcases hs with hs | ⟨reads, hs⟩
    · rw [hs] at hrun
      exact hrun.1
    · rw [hs] at hrun
      exact hrun.1

/-- INTERNAL: an end that is found by running the thread. -/
theorem ended_of_run (input : SessionInput) (n : ℕ)
    (h : (match pthreadRoutine input n with
      | .error (.ended _) => true
      | _ => false) = true) : ∃ s, pthreadRoutine input n = .error (.ended s) := by
  cases hrun : pthreadRoutine input n with
  | ok p =>
    rw [hrun] at h
    cases h
  | error stop =>
    cases stop with
    | waiting s =>
      rw [hrun] at h
      cases h
    | ended s => exact ⟨s, rfl⟩

/-- A client that is gone in the middle of the third message. -/
def lostInWelcome : SessionInput :=
  { secretCode := [], stackBuffer := [], rand := fun _ => 0, reads := []
    writes := [.accept 192, .accept 192, .accept 100, .epipe] }

/-- A thread that ends inside `send_gp_message`.
SOURCE: server.c:216-231 -/
theorem session_lifecycle_lost_in_welcome :
    ∃ s, pthreadRoutine lostInWelcome 0 = .error (.ended s) ∧
      ∃ wins, books s.conn.trace = some
          { now := [1, -1], total := [1], wins := wins, closed := true, held := [] } ∧
        (wins = [] ∨
          wins = [1] ∧ (scored s.conn.trace).getLast? = some (cString (secretOf lostInWelcome))) := by
  obtain ⟨s, hs⟩ := ended_of_run lostInWelcome 0 (by decide +kernel)
  exact ⟨s, hs, (session_lifecycle lostInWelcome 0).1 s hs⟩

end Comp30023.Analysis
