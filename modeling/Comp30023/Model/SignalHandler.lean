import Comp30023.Model.AcceptLoop

/-!
# The signal handler of the server

`sig_handler` of `server.c`, which ends the server at `SIGINT` and `SIGTERM`. It runs on
whatever thread the signal reaches, between two of its events, and that thread does nothing else
until the handler comes to its `exit(0)`, which ends all threads. The other threads go on.
Only the first signal is modelled. What the calls of `pthread_attr_destroy` and
`pthread_mutex_destroy` return is only printed to `stderr`, and they are left out.

The locks that the C library has for `malloc` and for its streams are not modelled. A handler that
has interrupted a call of the library may wait for them too, so that it comes no further than the
handler here; that it comes to its end is not to be read off the model.
-/

set_option autoImplicit false

namespace Comp30023.Model

/-- The lines that only the handler writes to the log file; the numbers of the last two kinds are
left out.
SOURCE: server.c:91-131 -/
inductive HandlerLogLine where
  | serverShutdown
  | clientsConnected (count : ℤ)
  | clientsWon (count : ℤ)
  | cpuTime
  | memory
deriving Repr, DecidableEq

/-- What the handler does. -/
inductive HandlerEvent where
  /-- `close(socket_fd)`, for the socket of the server -/
  | closeSocket
  | lock (mutex : Mutex)
  | log (line : Shared → HandlerLogLine)
  /-- `fclose(log_file_fd)` -/
  | closeFile
  | unlock (mutex : Mutex)
  /-- `exit(0)` -/
  | exit

/-- SOURCE: server.c:83-159 -/
def sigHandler : List HandlerEvent :=
  [.closeSocket, .lock .logFile, .log fun _ => .serverShutdown,
    .log fun shared => .clientsConnected shared.clientsCount,
    .log fun shared => .clientsWon shared.clientsWinCount, .log fun _ => .cpuTime,
    .log fun _ => .cpuTime, .log fun _ => .memory, .log fun _ => .memory, .closeFile,
    .unlock .logFile, .exit]

/-- What an event of the handler does to the shared variables; `none` when it waits for a mutex. -/
def Shared.performHandler (shared : Shared) : HandlerEvent → Option Shared
  | .lock mutex => shared.perform (.lock mutex)
  | .unlock mutex => shared.perform (.unlock mutex)
  | _ => some shared

end Comp30023.Model
