import Mathlib.Data.List.Basic
import Mathlib.Data.Int.Order.Basic

/-!
# The message helpers

`message-helpers.c`: the two loops that move a message of a fixed size over a socket
with `read()` and `write()`, and give up after a few system calls.

A socket is what its system calls will meet. `reads` lists the outcomes of the calls
of `read()` to come: bytes that have arrived, of which a call takes no more than it
asked for and leaves the rest to the next one, the end of the stream, or an error. A
`read()` for which nothing is listed waits, and the caller does not come back. `writes`
lists the outcomes of the calls of `write()`; once they are used up, every `write()`
takes all it is given.
-/

set_option autoImplicit false

namespace Comp30023.Model

/-- SOURCE: message-helpers.h:10 -/
def readAttemptsMaxCount : ℕ := 5

/-- SOURCE: message-helpers.h:11 -/
def writeAttemptsMaxCount : ℕ := 5

/-- SOURCE: message-helpers.h:13 -/
def readError : ℤ := -1

/-- SOURCE: message-helpers.h:14 -/
def writeConnLostError : ℤ := -2

/-- SOURCE: message-helpers.h:15 -/
def writeOtherError : ℤ := -1

/-! ## Receiving -/

/-- What a call of `read()` meets. -/
inductive ReadOutcome where
  | data (bytes : List UInt8)
  | eof
  | error
deriving Repr, DecidableEq

/-- What a call of `read()` returned and stored, and what the next calls will meet. -/
structure ReadResult where
  n : ℤ
  bytes : List UInt8
  rest : List ReadOutcome
deriving Repr, DecidableEq

/-- `read(socket_fd, _, count)`; `none` when it waits. -/
def read (count : ℕ) : List ReadOutcome → Option ReadResult
  | [] => none
  | .data bytes :: rest =>
    some { n := (bytes.take count).length
           bytes := bytes.take count
           rest := if bytes.length ≤ count then rest else .data (bytes.drop count) :: rest }
  | .eof :: rest => some { n := 0, bytes := [], rest := rest }
  | .error :: rest => some { n := -1, bytes := [], rest := rest }

/-- The array `buf` after `bytes` were stored at `buf + offset`. -/
def store (buf : List UInt8) (offset : ℕ) (bytes : List UInt8) : List UInt8 :=
  buf.take offset ++ bytes ++ buf.drop (offset + bytes.length)

/-- What a call of `receive_message` leaves behind: how many bytes it stored
(`rcvd_msg_size` when the loop is left), the buffer, and the reads to come. -/
structure Received where
  rcvdMsgSize : ℕ
  buf : List UInt8
  reads : List ReadOutcome
deriving Repr, DecidableEq

/-- The loop of `receive_message`, with the number of attempts it still has.
SOURCE: message-helpers.c:23-32 -/
def receiveLoop (msgSize : ℕ) : ℕ → Received → Option Received
  | 0, r => some r
  | attempts + 1, r =>
    match read (msgSize - r.rcvdMsgSize) r.reads with
    | none => none
    | some result =>
      let r : Received :=
        { rcvdMsgSize := if 0 < result.n then r.rcvdMsgSize + result.n.toNat else r.rcvdMsgSize
          buf := store r.buf r.rcvdMsgSize result.bytes
          reads := result.rest }
      if r.rcvdMsgSize < msgSize then receiveLoop msgSize attempts r else some r

/-- `none` when it never comes back from a `read()`.
SOURCE: message-helpers.c:19-32 -/
def receiveMessage (buf : List UInt8) (msgSize : ℕ) (reads : List ReadOutcome) :
    Option Received :=
  receiveLoop msgSize readAttemptsMaxCount { rcvdMsgSize := 0, buf := buf, reads := reads }

/-- What `receive_message` returns.
SOURCE: message-helpers.c:34-41 -/
def Received.result (r : Received) (msgSize : ℕ) : ℤ :=
  if r.rcvdMsgSize = msgSize then r.rcvdMsgSize else readError

/-! ## Sending -/

/-- What a call of `write()` meets: a peer that takes at most so many bytes, one that is
gone (`EPIPE`), or another error. -/
inductive WriteOutcome where
  | accept (count : ℕ)
  | epipe
  | error
deriving Repr, DecidableEq

/-- What a call of `write()` returned, whether it left `EPIPE` in `errno`, and what the next
calls will meet. -/
structure WriteResult where
  n : ℤ
  isEpipe : Bool
  rest : List WriteOutcome
deriving Repr, DecidableEq

/-- `write(socket_fd, _, count)`. -/
def write (count : ℕ) : List WriteOutcome → WriteResult
  | [] => { n := count, isEpipe := false, rest := [] }
  | .accept m :: rest => { n := (min m count : ℕ), isEpipe := false, rest := rest }
  | .epipe :: rest => { n := -1, isEpipe := true, rest := rest }
  | .error :: rest => { n := -1, isEpipe := false, rest := rest }

/-- What a call of `send_message` leaves behind: how many bytes were sent (`sent_msg_size`),
whether the connection was lost, the bytes that went out, and the writes to come. -/
structure Sent where
  sentMsgSize : ℕ
  isConnLost : Bool
  written : List UInt8
  writes : List WriteOutcome
deriving Repr, DecidableEq

/-- The loop of `send_message`, with the number of attempts it still has.
SOURCE: message-helpers.c:48-64 -/
def sendLoop (msg : List UInt8) (msgSize : ℕ) : ℕ → Sent → Sent
  | 0, s => s
  | attempts + 1, s =>
    let result := write (msgSize - s.sentMsgSize) s.writes
    if result.n = -1 ∧ result.isEpipe then
      { s with isConnLost := true, writes := result.rest }
    else
      let s : Sent :=
        { sentMsgSize := if 0 < result.n then s.sentMsgSize + result.n.toNat else s.sentMsgSize
          isConnLost := false
          written := s.written ++ (msg.drop s.sentMsgSize).take result.n.toNat
          writes := result.rest }
      if s.sentMsgSize < msgSize then sendLoop msg msgSize attempts s else s

/-- SOURCE: message-helpers.c:44-64 -/
def sendMessage (msg : List UInt8) (msgSize : ℕ) (writes : List WriteOutcome) : Sent :=
  sendLoop msg msgSize writeAttemptsMaxCount
    { sentMsgSize := 0, isConnLost := false, written := [], writes := writes }

/-- What `send_message` returns.
SOURCE: message-helpers.c:53-58, 66-73 -/
def Sent.result (s : Sent) (msgSize : ℕ) : ℤ :=
  if s.isConnLost then writeConnLostError
  else if s.sentMsgSize = msgSize then s.sentMsgSize
  else writeOtherError

end Comp30023.Model
