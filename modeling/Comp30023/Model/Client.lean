import Comp30023.Library.Loop
import Comp30023.Model.Server

/-!
# The client

The loop of `client.c`: it receives a message, finds out by its header what it is, prints
something, answers a prompt with a line from standard input, and goes on until the game is
over. One buffer is used for all of this.
-/

set_option autoImplicit false

namespace Comp30023.Model

open Comp30023.Library

/-- SOURCE: game-protocol.h:11 -/
def gpHeaderSize : ℕ := 7

/-- What the client prints.
SOURCE: client.c:88-120 -/
inductive ClientOutput where
  /-- `"%s"` -/
  | payload (text : List UInt8)
  /-- `"> "` -/
  | prompt
  /-- `"Invalid guess.\n> "` -/
  | invalidGuess
  /-- `"You win! =)\n"` -/
  | win
  /-- `"You lose. Better luck next time.\n"` -/
  | lose
  /-- `"Server is full. Try connecting later.\n"` -/
  | serverFull
deriving Repr, DecidableEq

/-- The type of the message in the buffer, found by comparing the headers in this order; `none`
when none of them fits.
SOURCE: client.c:86-118 -/
def headerType (buffer : List UInt8) : Option GpMessageType :=
  [.dispMsg, .guessReq, .guessInv, .guessFbk, .gameSucc, .gameFail, .servFull].find? fun msgType =>
    strncmp gpHeaderSize buffer msgType.header = 0

/-- The variables of the client, and what it has printed.
SOURCE: client.c:36-37 -/
structure Client where
  buffer : List UInt8
  isEndGame : Bool
  printed : List ClientOutput
deriving Repr, DecidableEq

/-- The client when it comes to its loop.
SOURCE: client.c:36-37 -/
def Client.initial : Client :=
  { buffer := List.replicate gpSize 0, isEndGame := false, printed := [] }

def Client.print (client : Client) (output : ClientOutput) : Client :=
  { client with printed := client.printed ++ [output] }

/-- What stops the client before its loop is left: it waits for ever in a `read()`, a `write()` to a
connection that is gone raises `SIGPIPE`, which `client.c` does not ignore, or it goes on behind the
end of the buffer. -/
inductive ClientFault where
  | waits
  | sigpipe
  | indexOutOfRange
deriving Repr, DecidableEq

/-- The payload in the buffer, which `printf` prints up to its terminator.
SOURCE: client.c:88, 106 -/
def payloadOf (buffer : List UInt8) : Except ClientFault (List UInt8) :=
  let payload := buffer.drop gpHeaderSize
  if 0 ∈ payload then .ok (cString payload) else .error .indexOutOfRange

/-- The first line break of the text in the buffer is replaced by a terminator. Where there is
neither, `strcspn` goes on behind the buffer.
SOURCE: client.c:94, 101 -/
def cutLineBreak (buffer : List UInt8) : Except ClientFault (List UInt8) :=
  let i := strcspn buffer (ascii "\r\n")
  if i < buffer.length then .ok (buffer.set i 0) else .error .indexOutOfRange

/-- A guess is read from standard input into the buffer, over what it holds, and its line
break is replaced by a terminator; the buffer, and what is left of standard input.
SOURCE: client.c:93-94, 100-101 -/
def readGuess (stdin buffer : List UInt8) : Except ClientFault (List UInt8 × List UInt8) :=
  let (buffer, stdin) :=
    match fgets gpSize stdin with
    | none => (buffer, stdin)
    | some (line, rest) => (store buffer 0 (line ++ [0]), rest)
  do
    let buffer ← cutLineBreak buffer
    .ok (buffer, stdin)

/-- What the header of the message in the buffer makes the client do: the client, what is left of
standard input, and the message that was sent if there was one.
SOURCE: client.c:86-122 -/
def handleByHeader (stdin : List UInt8) (client : Client) :
    Except ClientFault (Client × List UInt8 × Option (List UInt8)) :=
  match headerType client.buffer with
  | some .dispMsg => do
    let payload ← payloadOf client.buffer
    .ok (client.print (.payload payload), stdin, none)
  | some .guessReq => do
    let (guess, stdin) ← readGuess stdin client.buffer
    .ok ({ client with buffer := guess }.print .prompt, stdin, some guess)
  | some .guessInv => do
    let (guess, stdin) ← readGuess stdin client.buffer
    .ok ({ client with buffer := guess }.print .invalidGuess, stdin, some guess)
  | some .guessFbk => do
    let payload ← payloadOf client.buffer
    .ok (client.print (.payload payload), stdin, none)
  | some .gameSucc => .ok ({ client with isEndGame := true }.print .win, stdin, none)
  | some .gameFail => .ok ({ client with isEndGame := true }.print .lose, stdin, none)
  | some .servFull => .ok ({ client with isEndGame := true }.print .serverFull, stdin, none)
  | none => .ok (client, stdin, none)

/-- One pass through the loop once a message is in the buffer: the client, what is left of
standard input, and the message that was sent if there was one.
SOURCE: client.c:86-124 -/
def handleMessage (stdin : List UInt8) (client : Client) :
    Except ClientFault (Client × List UInt8 × Option (List UInt8)) := do
  let (client, stdin, sent) ← handleByHeader stdin client
  .ok ({ client with buffer := List.replicate gpSize 0 }, stdin, sent)

/-! ## The loop when the server goes away -/

/-- The client, what its calls of `read()` and `write()` will meet, and what is left of standard
input. Behind the listed reads the stream has ended. -/
structure ClientLoop where
  client : Client
  reads : List ReadOutcome
  writes : List WriteOutcome
  stdin : List UInt8
deriving Repr, DecidableEq

def ClientLoop.initial (reads : List ReadOutcome) (writes : List WriteOutcome)
    (stdin : List UInt8) : ClientLoop :=
  { client := Client.initial, reads := reads, writes := writes, stdin := stdin }

/-- One pass through the loop. What `receive_message` and `send_message` return is not looked at.
SOURCE: client.c:82-125 -/
def clientPass (s : ClientLoop) : Except ClientFault (Pass ClientLoop) :=
  if s.client.isEndGame then .ok (.done s)
  else
    match receiveMessage s.client.buffer gpSize
        (s.reads ++ List.replicate readAttemptsMaxCount .eof) with
    | none => .error .waits
    | some r =>
      match handleMessage s.stdin { s.client with buffer := r.buf } with
      | .error e => .error e
      | .ok (client, stdin, none) =>
        .ok (.again { client := client, reads := r.reads, writes := s.writes, stdin := stdin })
      | .ok (client, stdin, some message) =>
        let sent := sendMessage message gpSize s.writes
        if sent.isConnLost then .error .sigpipe
        else
          .ok (.again { client := client, reads := r.reads, writes := sent.writes, stdin := stdin })

end Comp30023.Model
