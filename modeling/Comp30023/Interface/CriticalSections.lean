import Mathlib.Data.List.Basic
import Comp30023.Interface.SessionGame
import Comp30023.Model.AcceptLoop
import Comp30023.Model.SignalHandler

/-!
# Critical sections

A monitor that reads the events of a session thread, or of `main`, from the start. It knows
which mutexes are held, what was written to the log file and how many clients were counted since
its mutex was locked, and which win is not logged yet. It gives up at anything that could bring
the server into disorder: waiting for a mutex while holding one that does not come before it,
unlocking a mutex that is not held, or the one of the log file behind lines that do not belong
together or do not tell of the clients that were counted, logging without that mutex, counting
without the mutex of the counter, and logging a win that was not counted before.
-/

set_option autoImplicit false

namespace Comp30023.Interface

open Comp30023.Library Comp30023.Model

/-- A line of the log file. -/
inductive LogEntry where
  | session (line : LogLine)
  | main (line : MainLogLine)
  | handler (line : HandlerLogLine)
deriving Repr, DecidableEq

/-- The order in which mutexes are locked: the one of the log file before those of the counters
that are changed while it is held. -/
def lockRank : Mutex → ℕ
  | .clientsNowCount => 1
  | .clientsCount => 1
  | _ => 0

/-- What the monitor knows: the mutexes that are held, the lines written to the log file and the
changes made to `clients_count` since the mutex of the log file was locked, and the wins that are
counted and not yet logged. -/
structure Section where
  held : List Mutex
  block : List LogEntry
  connected : ℤ
  wins : ℤ
deriving Repr, DecidableEq

/-- No mutex is held, and no win is to be logged. -/
def Section.outside : Section := ⟨[], [], 0, 0⟩

/-- The number of lines that tell of a new client. -/
def connections (lines : List LogEntry) : ℕ := lines.count (.session .clientConnected)

theorem connections_append (lines lines' : List LogEntry) :
    connections (lines ++ lines') = connections lines + connections lines' :=
  List.count_append

/-- One event; `none` at what must not happen. `whole` says which lines belong together. -/
def Section.enter (whole : List LogEntry → Bool) (c : Section) : ServerEvent → Option Section
  | .lock mutex =>
    if ∀ m ∈ c.held, lockRank m < lockRank mutex then
      some
        { c with
          held := mutex :: c.held
          block := if mutex = .logFile then [] else c.block
          connected := if mutex = .logFile then 0 else c.connected }
    else none
  | .unlock mutex =>
    if mutex ∈ c.held ∧
        (mutex = .logFile → whole c.block = true ∧ c.connected = connections c.block) then
      some
        { c with
          held := c.held.filter (· ≠ mutex)
          block := if mutex = .logFile then [] else c.block
          connected := if mutex = .logFile then 0 else c.connected }
    else none
  | .count .clientsNowCount _ => if .clientsNowCount ∈ c.held then some c else none
  | .count .clientsCount change =>
    if .clientsCount ∈ c.held ∧ .logFile ∈ c.held then
      some { c with connected := c.connected + change }
    else none
  | .count .clientsWinCount change =>
    if .clientsWinCount ∈ c.held ∧ c.wins = 0 ∧ change = 1 then some { c with wins := 1 } else none
  | .log line =>
    if .logFile ∈ c.held ∧ (line = .successGameOver → c.wins = 1) then
      some
        { c with
          block := c.block ++ [.session line]
          wins := if line = .successGameOver then 0 else c.wins }
    else none
  | _ => some c

/-- The same for an event of `main`. -/
def Section.enterMain (whole : List LogEntry → Bool) (c : Section) : MainEvent → Option Section
  | .act event => c.enter whole event
  | .log line =>
    if .logFile ∈ c.held then some { c with block := c.block ++ [.main line] } else none
  | .free => some c

/-- The lines that a session with this secret code writes to the log file in one go.
SOURCE: server.c:218-224, 234-252, 504-525, 555-568, 587-606, 613-618 -/
def sessionBlock (secretCode : List UInt8) : List LogEntry → Bool
  | [.session .clientConnected, .session (.serverSecret code)] => code = cString secretCode
  | [.session (.clientGuess guess), .session (.serverHint positions colors)] =>
    getSecretCodeGuessFeedback (codeOf secretCode) (codeOf guess) = ⟨positions, colors⟩
  | [.session .successGameOver] => true
  | [.session .failureGameOver] => true
  | [.session .clientDisconnected] => true
  | [.session .clientConnectionLost] => true
  | [.session .serverFailedToSend, .session .clientDisconnected] => true
  | _ => false

/-- The lines that `main` writes to the log file in one go.
SOURCE: server.c:218-224, 234-252, 438-445, 460-467 -/
def mainBlock : List LogEntry → Bool
  | [.main _] => true
  | [.session .clientConnectionLost] => true
  | [.session .serverFailedToSend, .session .clientDisconnected] => true
  | _ => false

/-! ## Session threads -/

/-- The session has this secret code and is outside of all critical sections. -/
structure Orderly (secretCode : List UInt8) (s : Session) : Prop where
  secret : s.secretCode = secretCode
  outside : s.conn.trace.foldlM (Section.enter (sessionBlock secretCode)) .outside =
    some .outside

section Sessions

variable {secretCode : List UInt8} {s : Session}

/-- INTERNAL: critical sections from beginning to end. -/
theorem Orderly.record (h : Orderly secretCode s) {events : List ServerEvent}
    (hevents : events.foldlM (Section.enter (sessionBlock secretCode)) .outside =
      some .outside) : Orderly secretCode (s.record events) := by
  refine ⟨h.secret, ?_⟩
  show (s.conn.trace ++ events).foldlM _ _ = _
  rw [List.foldlM_append, h.outside]
  exact hevents

/-- INTERNAL: sending a message.
SOURCE: server.c:193-257 -/
theorem Orderly.send (h : Orderly secretCode s) (msgType : GpMessageType)
    (msgPayload : Option (List UInt8)) :
    Outcome (Orderly secretCode) (Orderly secretCode) (s.send msgType msgPayload) := by
  have hsent : Orderly secretCode (afterSend s msgType msgPayload) := by
    refine ⟨h.secret, ?_⟩
    show (s.conn.trace ++ _).foldlM _ _ = _
    rw [List.foldlM_append, h.outside]
    rfl
  rcases send_cases s msgType msgPayload with ⟨-, hok, -⟩ | ⟨-, _, events, -, hevents, herror, -⟩
  · rw [hok]
    exact hsent
  · rw [herror]
    refine hsent.record ?_
    rcases hevents with rfl | rfl <;> rfl

/-- INTERNAL: on to the next guess, or to the end.
SOURCE: server.c:535-538, 583-622 -/
theorem Orderly.nextGuess (h : Orderly secretCode s) :
    Outcome (Orderly secretCode) (Orderly secretCode) (Model.nextGuess s) := by
  have hverdict : Outcome (Orderly secretCode) (Orderly secretCode) (verdict s) := by
    unfold verdict
    split_ifs
    · exact (h.record rfl).send _ _
    · exact (h.record rfl).send _ _
  unfold Model.nextGuess
  split_ifs
  · exact h.send _ _
  · exact hverdict.bind fun t ht => ht.record rfl

/-- INTERNAL: the text of a valid code is the same code. -/
theorem codeOf_cString {code : List UInt8} (h : isValidSecretCode code = true) :
    codeOf (cString code) = codeOf code := by
  obtain ⟨a, b, c, d, rest, rfl, htext, -⟩ := exists_of_isValid h
  rw [htext]
  funext i
  match i with
  | ⟨0, _⟩ => rfl
  | ⟨1, _⟩ => rfl
  | ⟨2, _⟩ => rfl
  | ⟨3, _⟩ => rfl

/-- INTERNAL: the guess and the hint on it are logged in one go.
SOURCE: server.c:555-580 -/
theorem Orderly.scoreGuess (h : Orderly secretCode s)
    (hvalid : isValidSecretCode s.conn.buffer = true) :
    Outcome (Orderly secretCode) (Orderly secretCode) (Model.scoreGuess s) := by
  have hlogged : Orderly secretCode (logGuess s) := by
    refine h.record ?_
    simp [Section.enter, Section.outside, sessionBlock, connections, feedbackOf, h.secret,
      codeOf_cString hvalid]
  rw [scoreGuess_eq]
  refine Outcome.bind (Orderly.send ?_ _ _) fun t ht => ?_
  · exact ⟨hlogged.secret, hlogged.outside⟩
  · exact ⟨ht.secret, ht.outside⟩

/-- A guess leads from outside of all critical sections to outside of all.
SOURCE: server.c:543-581 -/
theorem Orderly.checkGuess (h : Orderly secretCode s) (r : Received) :
    Outcome (Orderly secretCode) (Orderly secretCode) (Model.checkGuess r s) := by
  have hreceived : Orderly secretCode (afterReceive r s) :=
    Orderly.record (s := { s with conn.buffer := r.buf }) ⟨h.secret, h.outside⟩ rfl
  rw [checkGuess_eq]
  split_ifs with hvalid
  · exact (hreceived.scoreGuess hvalid).bind fun t ht => ht.nextGuess
  · exact hreceived.send _ _

/-- A session comes to its first guess, or to its end, outside of all critical sections.
SOURCE: server.c:497-538 -/
theorem orderly_startSession (input : SessionInput) :
    Outcome (Orderly (secretOf input)) (Orderly (secretOf input)) (startSession input) := by
  refine outcome_startSession (Orderly (secretOf input)) ⟨rfl, ?_⟩
    (fun s text _ hs => hs.send _ _) fun s hs => hs.nextGuess
  simp [openedSession, Session.record, Connection.record, incrementClientsNowCount,
    incrementClientsCount, Section.enter, Section.outside, sessionBlock, connections, lockRank]

end Sessions

/-! ## The accept loop -/

/-- Nothing that concerns the statistics of the server: no client and no win is counted or
logged. -/
def isQuiet : MainEvent → Bool
  | .act (.count counter _) => counter = .clientsNowCount
  | .act (.log line) => line ≠ .clientConnected ∧ line ≠ .successGameOver
  | _ => true

/-- The events lead `main` from outside of all critical sections to outside of all, and leave the
statistics alone. -/
structure OrderlyMain (events : List MainEvent) : Prop where
  outside : events.foldlM (Section.enterMain mainBlock) .outside = some .outside
  quiet : ∀ event ∈ events, isQuiet event = true

theorem orderlyMain_nil : OrderlyMain [] := ⟨rfl, by simp⟩

/-- SOURCE: server.c:458-472 -/
theorem orderly_createFailed : OrderlyMain createFailed := ⟨rfl, by decide⟩

/-- The rejection of a client, whatever becomes of it.
SOURCE: server.c:193-257, 436-453 -/
theorem orderly_rejectClient (writes : List WriteOutcome) {events : List MainEvent}
    (h : rejectClient writes = .ok events ∨ rejectClient writes = .error events) :
    OrderlyMain events := by
  have hsend := send_cases
    { conn := { buffer := [], writes := writes, trace := [] }, secretCode := []
      guessesCount := 0, correctPositionsCount := 0, correctColorsCount := 0 } .servFull none
  unfold Session.send at hsend
  unfold rejectClient at h
  dsimp only at hsend h
  cases hresult : sendGpMessage .servFull none { buffer := [], writes := writes, trace := [] } with
  | ok conn =>
    rw [hresult] at hsend h
    rcases hsend with ⟨-, hok, htrace⟩ | ⟨-, _, _, -, -, herror, -⟩
    · rw [← Except.ok.inj hok] at htrace
      rcases h with h | h
      · rw [← Except.ok.inj h, htrace]
        exact ⟨rfl, by simp [isQuiet]⟩
      · cases h
    · cases herror
  | error conn =>
    rw [hresult] at hsend h
    rcases hsend with ⟨-, hok, -⟩ | ⟨-, result, tail, -, htail, herror, htrace⟩
    · cases hok
    · rcases h with h | h
      · cases h
      · have hconn := congrArg Session.conn (Except.error.inj herror)
        dsimp only at hconn
        rw [← Except.error.inj h, hconn]
        show OrderlyMain (_ ++ ((afterSend _ _ _).conn.trace ++ tail).map _)
        rw [htrace]
        rcases htail with rfl | rfl
        · exact ⟨rfl, by simp [isQuiet, connLostEvents, decrementClientsNowCount]⟩
        · exact ⟨rfl, by simp [isQuiet, sendFailedEvents, decrementClientsNowCount]⟩

end Comp30023.Interface
