import Comp30023.Model.MessageHelpers

/-!
# The message helpers, call by call

`message-helpers.c` once more, closer to the C: the counter of each helper is an integer that
carries the error codes as well, so that it is compared with the size of the message after an
error has been written over it, and every system call is recorded with the range of the buffer
it names.
-/

set_option autoImplicit false

namespace Comp30023.Model

/-- A call of `read()` or `write()` with `buf + offset` and `count`, what it returned, and
whether it left `EPIPE` in `errno` (which is looked at after `write()` only). -/
structure SystemCall where
  offset : ℤ
  count : ℤ
  n : ℤ
  isEpipe : Bool
deriving Repr, DecidableEq

/-! ## Receiving -/

/-- The counter of `receive_message`, its buffer, the reads to come and the calls made. -/
structure ReceiveCalls where
  rcvdMsgSize : ℤ
  buf : List UInt8
  reads : List ReadOutcome
  calls : List SystemCall
deriving Repr, DecidableEq

/-- The body of the loop; `none` when `read()` waits.
SOURCE: message-helpers.c:25-30 -/
def receiveCall (msgSize : ℤ) (v : ReceiveCalls) : Option ReceiveCalls :=
  match read (msgSize - v.rcvdMsgSize).toNat v.reads with
  | none => none
  | some result => some
    { rcvdMsgSize := if 0 < result.n then v.rcvdMsgSize + result.n else v.rcvdMsgSize
      buf := store v.buf v.rcvdMsgSize.toNat result.bytes
      reads := result.rest
      calls := v.calls ++ [⟨v.rcvdMsgSize, msgSize - v.rcvdMsgSize, result.n, false⟩] }

/-- The loop, with the number of attempts it still has.
SOURCE: message-helpers.c:23-32 -/
def receiveCallLoop (msgSize : ℤ) : ℕ → ReceiveCalls → Option ReceiveCalls
  | 0, v => some v
  | attempts + 1, v =>
    match receiveCall msgSize v with
    | none => none
    | some v => if v.rcvdMsgSize < msgSize then receiveCallLoop msgSize attempts v else some v

/-- `receive_message` when it returns: `rcvdMsgSize` is what it returns.
SOURCE: message-helpers.c:19-42 -/
def receiveMessageCalls (buf : List UInt8) (msgSize : ℤ) (reads : List ReadOutcome) :
    Option ReceiveCalls :=
  match receiveCallLoop msgSize readAttemptsMaxCount ⟨0, buf, reads, []⟩ with
  | none => none
  | some v => some (if v.rcvdMsgSize ≠ msgSize then { v with rcvdMsgSize := readError } else v)

/-! ## Sending -/

/-- The counter of `send_message`, the bytes that went out, the writes to come and the calls
made. -/
structure SendCalls where
  sentMsgSize : ℤ
  written : List UInt8
  writes : List WriteOutcome
  calls : List SystemCall
deriving Repr, DecidableEq

/-- The loop, with the number of attempts it still has.
SOURCE: message-helpers.c:48-64 -/
def sendCallLoop (msg : List UInt8) (msgSize : ℤ) : ℕ → SendCalls → SendCalls
  | 0, v => v
  | attempts + 1, v =>
    let result := write (msgSize - v.sentMsgSize).toNat v.writes
    let calls := v.calls ++ [⟨v.sentMsgSize, msgSize - v.sentMsgSize, result.n, result.isEpipe⟩]
    if result.n = -1 ∧ result.isEpipe then
      { v with sentMsgSize := writeConnLostError, writes := result.rest, calls := calls }
    else
      let v : SendCalls :=
        { sentMsgSize := if 0 < result.n then v.sentMsgSize + result.n else v.sentMsgSize
          written := v.written ++ (msg.drop v.sentMsgSize.toNat).take result.n.toNat
          writes := result.rest
          calls := calls }
      if v.sentMsgSize < msgSize then sendCallLoop msg msgSize attempts v else v

/-- `send_message` when it returns: `sentMsgSize` is what it returns.
SOURCE: message-helpers.c:44-74 -/
def sendMessageCalls (msg : List UInt8) (msgSize : ℤ) (writes : List WriteOutcome) : SendCalls :=
  let v := sendCallLoop msg msgSize writeAttemptsMaxCount ⟨0, [], writes, []⟩
  if v.sentMsgSize ≠ msgSize ∧ v.sentMsgSize ≠ writeConnLostError then
    { v with sentMsgSize := writeOtherError }
  else v

end Comp30023.Model
