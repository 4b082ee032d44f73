import Mathlib.Logic.Relation
import Comp30023.Model.Server

/-!
# The server as a whole

`main` of `server.c` from its accept loop on, together with the session threads it creates.
The threads take turns in any order; a turn is one event of `main` or of a session thread,
and a thread that wants a mutex another one holds has to wait.

What a session thread does up to its next call of `receive_message` does not depend on the
other threads, so a thread is its session, run ahead to that call, with the number of the
events of its trace that have `performed` so far. A client is the `SessionInput` that its
session would get; the secret code in it is the one `main` hands out.
-/

set_option autoImplicit false

namespace Comp30023.Model

/-- SOURCE: server.c:31 -/
def clientsNowMaxCount : ℤ := 40

/-- The secret code `main` copies into every `pthread_arg`: its second argument if that is a
valid code, else zeros.
SOURCE: server.c:314-323 -/
def mainSecretCode (argument : Option (List UInt8)) : List UInt8 :=
  match argument with
  | none => List.replicate (secretCodeLen + 1) 0
  | some code =>
    if isValidSecretCode code then strncpy code (secretCodeLen + 1)
    else List.replicate (secretCodeLen + 1) 0

/-! ## One client in the accept loop -/

/-- The lines that only `main` writes to the log file. -/
inductive MainLogLine where
  | serverFull
  | serverFailedToCreateThread
deriving Repr, DecidableEq

/-- What `main` does with a client it has accepted, in program order. -/
inductive MainEvent where
  /-- something that session threads do too, on the socket of this client -/
  | act (event : ServerEvent)
  | log (line : MainLogLine)
  /-- `free(pthread_arg)` -/
  | free
deriving Repr, DecidableEq

/-- The client is sent away because the server is full. `main` calls `send_gp_message` like a
session thread; an error is its `pthread_exit`, which here ends `main`. The buffer `main`
hands over is overwritten before it is read.
SOURCE: server.c:436-453 -/
def rejectClient (writes : List WriteOutcome) : Except (List MainEvent) (List MainEvent) :=
  let logged : List MainEvent := [.act (.lock .logFile), .log .serverFull, .act (.unlock .logFile)]
  match sendGpMessage .servFull none { buffer := [], writes := writes, trace := [] } with
  | .error conn => .error (logged ++ conn.trace.map .act)
  | .ok conn => .ok (logged ++ conn.trace.map .act ++ [.act .close, .free])

/-- No thread could be created for the client.
SOURCE: server.c:458-472 -/
def createFailed : List MainEvent :=
  [.act (.lock .logFile), .log .serverFailedToCreateThread, .act (.unlock .logFile),
    .act .close, .free]

/-! ## Shared variables -/

/-- The variables all threads share: the counters, and the mutexes that are locked.
SOURCE: server.c:79-81 -/
structure Shared where
  clientsNowCount : ℤ
  clientsCount : ℤ
  clientsWinCount : ℤ
  held : List Mutex
deriving Repr, DecidableEq

/-- What an event does to the shared variables; `none` when it waits for a mutex. -/
def Shared.perform (shared : Shared) : ServerEvent → Option Shared
  | .lock mutex =>
    if mutex ∈ shared.held then none else some { shared with held := mutex :: shared.held }
  | .unlock mutex => some { shared with held := shared.held.filter (· ≠ mutex) }
  | .count .clientsNowCount change =>
    some { shared with clientsNowCount := shared.clientsNowCount + change }
  | .count .clientsCount change =>
    some { shared with clientsCount := shared.clientsCount + change }
  | .count .clientsWinCount change =>
    some { shared with clientsWinCount := shared.clientsWinCount + change }
  | _ => some shared

/-- The same for an event of `main`. -/
def Shared.performMain (shared : Shared) : MainEvent → Option Shared
  | .act event => shared.perform event
  | .log _ => some shared
  | .free => some shared

/-! ## Threads -/

/-- A session thread, run ahead to its next call of `receive_message` or to its end, with the
number of events of its trace that have been performed. -/
structure SessionThread where
  session : Session
  reads : List ReadOutcome
  isEnded : Bool
  performed : ℕ
deriving Repr, DecidableEq

/-- A new thread, which has done nothing yet. -/
def SessionThread.start (input : SessionInput) : SessionThread :=
  match startSession input with
  | .ok s => { session := s, reads := input.reads, isEnded := false, performed := 0 }
  | .error s => { session := s, reads := input.reads, isEnded := true, performed := 0 }

/-- The events that have been performed. -/
def SessionThread.done (thread : SessionThread) : List ServerEvent :=
  thread.session.conn.trace.take thread.performed

/-- The thread after one more event. -/
def SessionThread.next (thread : SessionThread) : SessionThread :=
  { thread with performed := thread.performed + 1 }

/-- The thread after `receive_message` has come back with this.
SOURCE: server.c:543-581 -/
def SessionThread.receive (r : Received) (thread : SessionThread) : SessionThread :=
  match checkGuess r thread.session with
  | .ok s => { thread with session := s, reads := r.reads }
  | .error s => { thread with session := s, reads := r.reads, isEnded := true }

/-- Where `main` is in its accept loop: at the top of it, before the test of
`clients_now_count` or the call of `pthread_create` for a client, or with some events to go
after which it comes back to the top or is gone. -/
inductive MainPoint where
  | accepting
  | testing (client : SessionInput)
  | creating (client : SessionInput)
  | finishing (events : List MainEvent) (comesBack : Bool)
  | exited

/-- The server: the shared variables, `main` with its secret code, and the session threads
created so far, in the order of their creation. -/
structure ServerState where
  shared : Shared
  secretCode : List UInt8
  main : MainPoint
  threads : List SessionThread

/-- The server when it comes to its accept loop. All mutexes can be used: the one of
`clients_now_count` is never initialised, but it has static storage, which is zero, as an unlocked
mutex is.
SOURCE: server.c:79-81, 363-377, 411-412 -/
def ServerState.initial (argument : Option (List UInt8)) : ServerState :=
  { shared := { clientsNowCount := 0, clientsCount := 0, clientsWinCount := 0, held := [] }
    secretCode := mainSecretCode argument
    main := .accepting
    threads := [] }

/-- Where `main` goes when it rejects a client.
SOURCE: server.c:436-453 -/
def rejecting (client : SessionInput) : MainPoint :=
  match rejectClient client.writes with
  | .ok events => .finishing events true
  | .error events => .finishing events false

/-- One turn of `main` or of a session thread.
SOURCE: server.c:411-474, 483-623 -/
inductive ServerStep : ServerState → ServerState → Prop
  /-- `malloc` or `accept` fails, and `main` tries again -/
  | retry {σ : ServerState} (hmain : σ.main = .accepting) : ServerStep σ σ
  | accept {σ : ServerState} (hmain : σ.main = .accepting) (client : SessionInput) :
      ServerStep σ { σ with main := .testing client }
  | full {σ : ServerState} {client : SessionInput} (hmain : σ.main = .testing client)
      (hfull : clientsNowMaxCount ≤ σ.shared.clientsNowCount) :
      ServerStep σ { σ with main := rejecting client }
  | room {σ : ServerState} {client : SessionInput} (hmain : σ.main = .testing client)
      (hroom : σ.shared.clientsNowCount < clientsNowMaxCount) :
      ServerStep σ { σ with main := .creating client }
  | create {σ : ServerState} {client : SessionInput} (hmain : σ.main = .creating client) :
      ServerStep σ
        { σ with
          main := .accepting
          threads := σ.threads ++
            [SessionThread.start { client with secretCode := strncpy σ.secretCode (secretCodeLen + 1) }] }
  | createFails {σ : ServerState} {client : SessionInput} (hmain : σ.main = .creating client) :
      ServerStep σ { σ with main := .finishing createFailed true }
  | mainEvent {σ : ServerState} {event : MainEvent} {events : List MainEvent} {comesBack : Bool}
      {shared : Shared} (hmain : σ.main = .finishing (event :: events) comesBack)
      (hperform : σ.shared.performMain event = some shared) :
      ServerStep σ { σ with shared := shared, main := .finishing events comesBack }
  | comeBack {σ : ServerState} (hmain : σ.main = .finishing [] true) :
      ServerStep σ { σ with main := .accepting }
  | exit {σ : ServerState} (hmain : σ.main = .finishing [] false) :
      ServerStep σ { σ with main := .exited }
  | threadEvent {σ : ServerState} {i : ℕ} {thread : SessionThread} {event : ServerEvent}
      {shared : Shared} (hthread : σ.threads[i]? = some thread)
      (hevent : thread.session.conn.trace[thread.performed]? = some event)
      (hperform : σ.shared.perform event = some shared) :
      ServerStep σ { σ with shared := shared, threads := σ.threads.set i thread.next }
  | receive {σ : ServerState} {i : ℕ} {thread : SessionThread} {r : Received}
      (hthread : σ.threads[i]? = some thread)
      (hdone : thread.performed = thread.session.conn.trace.length) (hgoes : thread.isEnded = false)
      (hreceive : receiveMessage thread.session.conn.buffer gpSize thread.reads = some r) :
      ServerStep σ { σ with threads := σ.threads.set i (thread.receive r) }

end Comp30023.Model
