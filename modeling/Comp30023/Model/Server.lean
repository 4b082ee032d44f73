import Comp30023.Library.Loop
import Comp30023.Model.CLibrary
import Comp30023.Model.MessageHelpers
import Comp30023.Model.SecretCode

/-!
# The server's side of a game

`game-protocol.h` and the part of `server.c` that serves one client: `send_gp_message` and
the thread `pthread_routine`.

What the thread does that can be seen from outside is recorded in a `trace` of
`ServerEvent`s, in program order: what it locks, counts, logs, sends, checks and closes.
Times and addresses in the log are left out. The end of the thread, by `pthread_exit` from
inside `send_gp_message` or by the return of `pthread_routine`, is the error of an `Except`,
so that the code around it reads as in the source. A thread stops by ending or by waiting
in a `read()` that does not come back.
-/

set_option autoImplicit false

namespace Comp30023.Model

open Comp30023.Library

/-! ## The game protocol -/

/-- SOURCE: game-protocol.h:10 -/
def gpSize : ℕ := 192

/-- The types of message, by the names of their macros.
SOURCE: game-protocol.h:12-18 -/
inductive GpMessageType where
  | servFull
  | dispMsg
  | guessReq
  | guessFbk
  | guessInv
  | gameSucc
  | gameFail
deriving Repr, DecidableEq

/-- The seven characters a message starts with.
SOURCE: game-protocol.h:12-18 -/
def GpMessageType.header : GpMessageType → List UInt8
  | .servFull => ascii "SERVFUL"
  | .dispMsg => ascii "DISPMSG"
  | .guessReq => ascii "REQUEST"
  | .guessFbk => ascii "FEEDBAC"
  | .guessInv => ascii "INVALID"
  | .gameSucc => ascii "SUCCESS"
  | .gameFail => ascii "FAILURE"

/-- The text `send_gp_message` prints into its buffer: only messages to display and
feedback carry their payload.
SOURCE: server.c:204-212 -/
def gpMessageText (msgType : GpMessageType) (msgPayload : Option (List UInt8)) : List UInt8 :=
  match msgPayload with
  | none => msgType.header
  | some payload =>
    if msgType ≠ .dispMsg ∧ msgType ≠ .guessFbk then msgType.header
    else msgType.header ++ payload

/-- The buffer `send_gp_message` sends: zeros, with the text printed over them.
SOURCE: server.c:200-212 -/
def composeGpMessage (msgType : GpMessageType) (msgPayload : Option (List UInt8)) : List UInt8 :=
  store (List.replicate gpSize 0) 0 (gpMessageText msgType msgPayload)

/-! ## What a thread does -/

/-- SOURCE: server.c:81 -/
inductive Mutex where
  | logFile
  | clientsNowCount
  | clientsCount
  | clientsWinCount
deriving Repr, DecidableEq

/-- SOURCE: server.c:79 -/
inductive Counter where
  | clientsNowCount
  | clientsCount
  | clientsWinCount
deriving Repr, DecidableEq

/-- The lines a session writes to the log file. -/
inductive LogLine where
  | clientConnected
  | serverSecret (secretCode : List UInt8)
  | clientGuess (guess : List UInt8)
  | serverHint (correctPositionsCount correctColorsCount : ℕ)
  | successGameOver
  | failureGameOver
  | clientDisconnected
  | clientConnectionLost
  | serverFailedToSend
deriving Repr, DecidableEq

/-- What a thread does, in program order. -/
inductive ServerEvent where
  | lock (mutex : Mutex)
  | unlock (mutex : Mutex)
  | count (counter : Counter) (change : ℤ)
  | log (line : LogLine)
  /-- `send_message` was called with the buffer composed for these, and returned this -/
  | send (msgType : GpMessageType) (msgPayload : Option (List UInt8)) (result : ℤ)
  /-- `receive_message` was called, stored so many bytes and returned this -/
  | receive (stored : ℕ) (result : ℤ)
  /-- the buffer was passed to `is_valid_secret_code` -/
  | check (buffer : List UInt8)
  /-- the socket was closed -/
  | close
deriving Repr, DecidableEq

/-- SOURCE: server.c:161-167 -/
def incrementClientsNowCount : List ServerEvent :=
  [.lock .clientsNowCount, .count .clientsNowCount 1, .unlock .clientsNowCount]

/-- SOURCE: server.c:169-175 -/
def decrementClientsNowCount : List ServerEvent :=
  [.lock .clientsNowCount, .count .clientsNowCount (-1), .unlock .clientsNowCount]

/-- SOURCE: server.c:177-183 -/
def incrementClientsCount : List ServerEvent :=
  [.lock .clientsCount, .count .clientsCount 1, .unlock .clientsCount]

/-- SOURCE: server.c:185-191 -/
def incrementClientsWinCount : List ServerEvent :=
  [.lock .clientsWinCount, .count .clientsWinCount 1, .unlock .clientsWinCount]

/-! ## Sending a message of the protocol -/

/-- What `send_gp_message` works on: the buffer of its caller, the writes its socket will
meet, and what the thread has done so far. -/
structure Connection where
  buffer : List UInt8
  writes : List WriteOutcome
  trace : List ServerEvent
deriving Repr, DecidableEq

def Connection.record (conn : Connection) (events : List ServerEvent) : Connection :=
  { conn with trace := conn.trace ++ events }

/-- An error is `pthread_exit`.
SOURCE: server.c:193-257 -/
def sendGpMessage (msgType : GpMessageType) (msgPayload : Option (List UInt8))
    (conn : Connection) : Except Connection Connection :=
  let buffer := composeGpMessage msgType msgPayload
  let sent := sendMessage buffer gpSize conn.writes
  let conn : Connection := { conn with buffer := buffer, writes := sent.writes }
  let conn := conn.record [.send msgType msgPayload (sent.result gpSize)]
  if sent.result gpSize = writeConnLostError then
    .error <| conn.record
      ([.lock .logFile, .log .clientConnectionLost, .unlock .logFile, .close]
        ++ decrementClientsNowCount)
  else if sent.result gpSize = writeOtherError then
    .error <| conn.record
      ([.lock .logFile, .log .serverFailedToSend, .close, .log .clientDisconnected,
        .unlock .logFile] ++ decrementClientsNowCount)
  else .ok conn

/-! ## The session thread -/

/-- SOURCE: server.c:33 -/
def maxGuessesCount : ℕ := 10

/-- SOURCE: server.c:489 -/
def welcomeMessage : List UInt8 := ascii "\nWelcome to online Mastermind game.\n\n"

/-- SOURCE: server.c:490-492 -/
def instructions1Message : List UInt8 :=
  ascii ("Instructions: Win the game by correctly guessing the secret code within ten\n"
    ++ "guesses. The code consists of four uppercase characters A, B, C, D, E and F.\n")

/-- SOURCE: server.c:493-495 -/
def instructions2Message : List UInt8 :=
  ascii ("Enter the guess when prompted with \">\". Do not include any spaces, lowercase\n"
    ++ "letters or any other characters.\n\n")

/-- SOURCE: server.c:571-577 -/
def feedbackMessage (guessNumber correctPositionsCount correctColorsCount : ℕ) : List UInt8 :=
  ascii (s!"Guess: {guessNumber}, Correct positions: {correctPositionsCount}, "
    ++ s!"Correct colours: {correctColorsCount}.\n")

/-- The local variables of `pthread_routine`.
SOURCE: server.c:485-498 -/
structure Session where
  conn : Connection
  secretCode : List UInt8
  guessesCount : ℕ
  correctPositionsCount : ℕ
  correctColorsCount : ℕ
deriving Repr, DecidableEq

def Session.record (s : Session) (events : List ServerEvent) : Session :=
  { s with conn := s.conn.record events }

/-- `send_gp_message(&client, buffer, ...)`. -/
def Session.send (s : Session) (msgType : GpMessageType) (msgPayload : Option (List UInt8)) :
    Except Session Session :=
  match sendGpMessage msgType msgPayload s.conn with
  | .error conn => .error { s with conn := conn }
  | .ok conn => .ok { s with conn := conn }

/-- SOURCE: server.c:583-608 -/
def verdict (s : Session) : Except Session Session :=
  if s.correctPositionsCount = secretCodeLen then
    (s.record (incrementClientsWinCount
      ++ [.lock .logFile, .log .successGameOver, .unlock .logFile])).send .gameSucc none
  else
    (s.record [.lock .logFile, .log .failureGameOver, .unlock .logFile]).send .gameFail none

/-- The end of the game: the verdict, the close, and the return of the thread.
SOURCE: server.c:583-622 -/
def gameOver (s : Session) : Except Session Session := do
  let s ← verdict s
  .error <| s.record
    ([.close, .lock .logFile, .log .clientDisconnected, .unlock .logFile]
      ++ decrementClientsNowCount)

/-- The test of the outer loop, and the request it makes when the game goes on.
SOURCE: server.c:535-538 -/
def nextGuess (s : Session) : Except Session Session :=
  if s.guessesCount < maxGuessesCount ∧ s.correctPositionsCount < secretCodeLen then
    s.send .guessReq none
  else gameOver s

/-- What follows a valid guess, up to the test of the outer loop.
SOURCE: server.c:555-580 -/
def scoreGuess (s : Session) : Except Session Session := do
  let feedback := getSecretCodeGuessFeedback (codeOf s.secretCode) (codeOf s.conn.buffer)
  let s := s.record [.lock .logFile, .log (.clientGuess (cString s.conn.buffer)),
    .log (.serverHint feedback.correctPositionsCount feedback.correctColorsCount),
    .unlock .logFile]
  let s := { s with correctPositionsCount := feedback.correctPositionsCount
                    correctColorsCount := feedback.correctColorsCount }
  let s ← s.send .guessFbk (some (feedbackMessage (s.guessesCount + 1) s.correctPositionsCount
    s.correctColorsCount))
  .ok { s with guessesCount := s.guessesCount + 1 }

/-- What the inner loop does once `receive_message` has come back with this in the buffer;
its result is not looked at.
SOURCE: server.c:547-552 -/
def checkGuess (r : Received) (s : Session) : Except Session Session :=
  let s := { s with conn.buffer := r.buf }
  let s := s.record [.receive r.rcvdMsgSize (r.result gpSize), .check r.buf]
  if isValidSecretCode r.buf then do
    let s ← scoreGuess s
    nextGuess s
  else s.send .guessInv none

/-- How a session thread comes to a stop. -/
inductive Stop where
  | ended (s : Session)
  | waiting (s : Session)
deriving Repr, DecidableEq

def Stop.session : Stop → Session
  | .ended s => s
  | .waiting s => s

/-- One pass through the inner loop, and after a valid guess on to the next request.
SOURCE: server.c:543-581 -/
def guessPass : Session × List ReadOutcome → Except Stop (Pass (Session × List ReadOutcome))
  | (s, reads) =>
    match receiveMessage s.conn.buffer gpSize reads with
    | none => .error (.waiting s)
    | some r => do
      let s ← (checkGuess r s).mapError .ended
      .ok (.again (s, r.reads))

/-- What a session thread gets from outside: the secret code in its parameter, what its
uninitialised buffer holds, the numbers `rand()` returns, and what its socket will meet. -/
structure SessionInput where
  secretCode : List UInt8
  stackBuffer : List UInt8
  rand : ℕ → ℕ
  reads : List ReadOutcome
  writes : List WriteOutcome

/-- `pthread_routine` up to the first request for a guess. `correct_colors_count` is not
initialised in the source and not used before it is set.
SOURCE: server.c:497-538 -/
def startSession (input : SessionInput) : Except Session Session := do
  let copy := strncpy input.secretCode (secretCodeLen + 1)
  let secretCode := if isValidSecretCode copy then copy else getRandomSecretCode input.rand
  let s : Session :=
    { conn := { buffer := input.stackBuffer, writes := input.writes, trace := [] }
      secretCode := secretCode, guessesCount := 0, correctPositionsCount := 0
      correctColorsCount := 0 }
  let s := s.record ([.lock .logFile, .log .clientConnected] ++ incrementClientsNowCount
    ++ incrementClientsCount ++ [.log (.serverSecret (cString secretCode)), .unlock .logFile])
  let s ← s.send .dispMsg (some welcomeMessage)
  let s ← s.send .dispMsg (some instructions1Message)
  let s ← s.send .dispMsg (some instructions2Message)
  nextGuess s

/-- A session thread that makes at most `n` passes through the inner loop.
SOURCE: server.c:483-623 -/
def pthreadRoutine (input : SessionInput) (n : ℕ) :
    Except Stop (Pass (Session × List ReadOutcome)) := do
  let s ← (startSession input).mapError .ended
  loop guessPass n (s, input.reads)

end Comp30023.Model
