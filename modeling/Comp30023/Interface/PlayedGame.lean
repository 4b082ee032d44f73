import Mathlib.Logic.Relation
import Comp30023.Interface.MessageCodec
import Comp30023.Interface.ServerPhase
import Comp30023.Interface.SessionThreads

/-!
# A game between the server and a client

A session thread and a client on the two ends of a connection that loses nothing and keeps
the order in each direction. The two take turns in any order: the thread performs an event or
receives a guess, the client receives a message or handles the one it has received. The user
types lines of at most 190 characters, one whenever the client asks for one.

`decoded` and `guessesSent` are there for the statements only: what the client made of each
message it has handled, and how many guesses it has sent.
-/

set_option autoImplicit false

namespace Comp30023.Interface

open Comp30023.Library Comp30023.Model

/-- The two ends, the messages on their way in each direction, and whether the client has a
message it has not handled yet. -/
structure PlayedGame where
  thread : SessionThread
  client : Client
  isHandling : Bool
  toClient : List (List UInt8)
  toServer : List (List UInt8)
  decoded : List (Option GpMessage)
  guessesSent : ℕ

/-- The client is connected, and its session thread created. -/
def PlayedGame.initial (input : SessionInput) : PlayedGame :=
  { thread := SessionThread.start input, client := Client.initial, isHandling := false
    toClient := [], toServer := [], decoded := [], guessesSent := 0 }

/-- The longest line a user types. -/
def maxLineLength : ℕ := 190

/-- One turn of the thread or of the client.
SOURCE: server.c:527-608, client.c:82-125 -/
inductive GameStep : PlayedGame → PlayedGame → Prop
  | serverEvent {g : PlayedGame} {event : ServerEvent}
      (hevent : g.thread.session.conn.trace[g.thread.performed]? = some event) :
      GameStep g
        { g with
          thread := g.thread.next
          toClient := g.toClient ++ (messages [event]).map encodeGpMessage }
  | serverReceive {g : PlayedGame} {message : List UInt8} {rest : List (List UInt8)} {r : Received}
      (hdone : g.thread.performed = g.thread.session.conn.trace.length)
      (hgoes : g.thread.isEnded = false) (hmessage : g.toServer = message :: rest)
      (hreceive : receiveMessage g.thread.session.conn.buffer gpSize [.data message] = some r) :
      GameStep g { g with thread := g.thread.receive r, toServer := rest }
  | clientReceive {g : PlayedGame} {message : List UInt8} {rest : List (List UInt8)} {r : Received}
      (hloop : g.client.isEndGame = false) (hidle : g.isHandling = false)
      (hmessage : g.toClient = message :: rest)
      (hreceive : receiveMessage g.client.buffer gpSize [.data message] = some r) :
      GameStep g
        { g with client := { g.client with buffer := r.buf }, isHandling := true, toClient := rest }
  | clientHandle {g : PlayedGame} (hhandling : g.isHandling = true) (line : List UInt8)
      (hline : newline ∉ line) (hlength : line.length ≤ maxLineLength) {client : Client}
      {stdin : List UInt8} {sent : Option (List UInt8)}
      (hhandle : handleMessage (line ++ [newline]) g.client = .ok (client, stdin, sent)) :
      GameStep g
        { g with
          client := client
          isHandling := false
          toServer := g.toServer ++ sent.toList
          decoded := g.decoded ++ [decodeGpMessage g.client.buffer]
          guessesSent := g.guessesSent + sent.toList.length }

/-- INTERNAL: a whole message is received at once. -/
theorem receiveMessage_whole {buffer message : List UInt8} (hbuffer : buffer.length = gpSize)
    (hmessage : message.length = gpSize) :
    receiveMessage buffer gpSize [.data message] = some ⟨gpSize, message, []⟩ := by
  have hlast : receiveLoop gpSize readAttemptsMaxCount ⟨0, buffer, [message].map .data⟩ = _ :=
    receiveLoop_last [] (by decide) hmessage.ge
  unfold receiveMessage
  rw [show [ReadOutcome.data message] = [message].map .data from rfl, hlast, Nat.sub_zero,
    ← hmessage, List.take_length, store_full (hbuffer.trans hmessage.symm)]
  simp [chunksAfter]

/-! ## What the client does with a message -/

/-- What the client prints.
SOURCE: client.c:88-120 -/
def outputOf : GpMessage → ClientOutput
  | (.dispMsg, msgPayload) => .payload (msgPayload.getD [])
  | (.guessReq, _) => .prompt
  | (.guessInv, _) => .invalidGuess
  | (.guessFbk, msgPayload) => .payload (msgPayload.getD [])
  | (.gameSucc, _) => .win
  | (.gameFail, _) => .lose
  | (.servFull, _) => .serverFull

/-- The messages that end the client's loop.
SOURCE: client.c:108-122 -/
def endsLoop : GpMessage → Bool
  | (.gameSucc, _) => true
  | (.gameFail, _) => true
  | (.servFull, _) => true
  | _ => false

/-- One pass through the client's loop, by what the message is, if its payload ends within the
buffer.
SOURCE: client.c:86-124 -/
theorem handleMessage_decoded {client : Client} {message : GpMessage} (line : List UInt8)
    (h : decodeGpMessage client.buffer = some message) (hends : 0 ∈ client.buffer.drop gpHeaderSize)
    (hbuffer : client.buffer.length = gpSize) :
    ∃ stdin sent, handleMessage (line ++ [newline]) client =
        .ok ({ buffer := List.replicate gpSize 0
               isEndGame := client.isEndGame || endsLoop message
               printed := client.printed ++ [outputOf message] }, stdin, sent) ∧
      sent.toList.length = (if message.1 = .guessReq ∨ message.1 = .guessInv then 1 else 0) ∧
      ∀ guess ∈ sent, guess.length = gpSize := by
  unfold decodeGpMessage at h
  obtain ⟨msgType, htype, rfl⟩ := Option.map_eq_some_iff.mp h
  have hpayload : payloadOf client.buffer = .ok (cString (client.buffer.drop gpHeaderSize)) :=
    if_pos hends
  obtain ⟨guess, hguess, hread⟩ := readGuess_ok (line ++ [newline]) hbuffer (Or.inl (by simp))
  generalize ((fgets gpSize (line ++ [newline])).map Prod.snd).getD (line ++ [newline]) = rest at hread
  unfold handleMessage handleByHeader
  rw [htype]
  cases msgType with
  | guessReq =>
    refine ⟨rest, some guess, ?_, rfl, fun g hg => by rwa [← Option.mem_some.mp hg]⟩
    simp [hread, bind, Except.bind, Client.print, outputOf, endsLoop]
  | guessInv =>
    refine ⟨rest, some guess, ?_, rfl, fun g hg => by rwa [← Option.mem_some.mp hg]⟩
    simp [hread, bind, Except.bind, Client.print, outputOf, endsLoop]
  | _ =>
    refine ⟨line ++ [newline], none, ?_, rfl, by simp⟩
    simp [hpayload, bind, Except.bind, Client.print, outputOf, endsLoop]

end Comp30023.Interface
