import Mathlib.Data.List.Basic
import Comp30023.Interface.SessionRule

/-!
# The books of a session thread

A monitor that reads the trace of a thread from its start: it writes down how the thread
changed the counters, which mutexes it holds and whether it has closed its socket, and gives
up at the first thing a thread must not do: locking a mutex it holds, unlocking one it does
not hold, and closing or using its socket after it was closed. The books of a session that
waits for a guess are always the same, and so are those of one that has ended, except for
the win.
-/

set_option autoImplicit false

namespace Comp30023.Interface

open Comp30023.Library Comp30023.Model

/-- What the monitor knows of a thread: the changes it made to each counter, in order,
whether its socket is closed, and the mutexes it holds. -/
structure Books where
  now : List ℤ
  total : List ℤ
  wins : List ℤ
  closed : Bool
  held : List Mutex
deriving Repr, DecidableEq

/-- One event; `none` when a thread must not do that. -/
def Books.enter (b : Books) : ServerEvent → Option Books
  | .lock mutex => if mutex ∈ b.held then none else some { b with held := mutex :: b.held }
  | .unlock mutex =>
    if mutex ∈ b.held then some { b with held := b.held.filter (· ≠ mutex) } else none
  | .count .clientsNowCount change => some { b with now := b.now ++ [change] }
  | .count .clientsCount change => some { b with total := b.total ++ [change] }
  | .count .clientsWinCount change => some { b with wins := b.wins ++ [change] }
  | .send _ _ _ => if b.closed then none else some b
  | .receive _ _ => if b.closed then none else some b
  | .close => if b.closed then none else some { b with closed := true }
  | .log _ => some b
  | .check _ => some b

/-- The books of a thread that has done these things. -/
def books (trace : List ServerEvent) : Option Books := trace.foldlM Books.enter ⟨[], [], [], false, []⟩

/-- The books while a session goes on and is not inside `send_gp_message`: it is counted, its
socket is open and it holds no mutex. -/
def openBooks (wins : List ℤ) : Books := ⟨[1], [1], wins, false, []⟩

/-- The books of a session that has ended. -/
def closedBooks (wins : List ℤ) : Books := ⟨[1, -1], [1], wins, true, []⟩

/-- The session goes on, with these wins. -/
def Counted (wins : List ℤ) (s : Session) : Prop := books s.conn.trace = some (openBooks wins)

/-- The session has ended, with these wins. -/
def Closed (wins : List ℤ) (s : Session) : Prop := books s.conn.trace = some (closedBooks wins)

theorem books_append (trace events : List ServerEvent) :
    books (trace ++ events) = (books trace).bind fun b => events.foldlM Books.enter b :=
  List.foldlM_append

/-- INTERNAL: the books after some more events. -/
theorem books_record {s : Session} {events : List ServerEvent} {b b' : Books}
    (h : books s.conn.trace = some b) (hevents : events.foldlM Books.enter b = some b') :
    books (s.record events).conn.trace = some b' := by
  show books (s.conn.trace ++ events) = some b'
  rw [books_append, h]
  exact hevents

/-! ## The parts of a session -/

/-- INTERNAL: sending a message leaves a session going on, or closes its books.
SOURCE: server.c:193-257 -/
theorem counted_send {wins : List ℤ} {s : Session} (h : Counted wins s) (msgType : GpMessageType)
    (msgPayload : Option (List UInt8)) :
    Outcome (Counted wins) (Closed wins) (s.send msgType msgPayload) := by
  have hsend : ∀ {t : List ServerEvent} {result : ℤ},
      t = s.conn.trace ++ [.send msgType msgPayload result] → books t = some (openBooks wins) := by
    rintro t result rfl
    rw [books_append, h]
    rfl
  rcases send_cases s msgType msgPayload with ⟨-, hok, htrace⟩ |
    ⟨-, result, events, -, hevents, herror, htrace⟩
  · rw [hok]
    exact hsend htrace
  · rw [herror]
    refine books_record (hsend htrace) ?_
    rcases hevents with rfl | rfl <;> rfl

/-- INTERNAL: the end of the game closes the books, with a win exactly for a winner.
SOURCE: server.c:583-622 -/
theorem counted_gameOver {s : Session} (h : Counted [] s) :
    Outcome (fun _ => False)
      (Closed (if s.correctPositionsCount = secretCodeLen then [1] else [])) (gameOver s) := by
  have hverdict : Outcome (Counted (if s.correctPositionsCount = secretCodeLen then [1] else []))
      (Closed (if s.correctPositionsCount = secretCodeLen then [1] else [])) (verdict s) := by
    unfold verdict
    split_ifs with hwin
    · exact counted_send (books_record h rfl) _ _
    · exact counted_send (books_record h rfl) _ _
  exact hverdict.bind fun t ht => books_record ht rfl

/-- INTERNAL: going on to the next guess.
SOURCE: server.c:535-538 -/
theorem counted_nextGuess {s : Session} (h : Counted [] s) :
    Outcome (Counted []) (fun t => ∃ wins, Closed wins t ∧
      (wins = [] ∨ wins = [1] ∧ s.correctPositionsCount = secretCodeLen)) (nextGuess s) := by
  unfold nextGuess
  split_ifs
  · exact (counted_send h _ _).mono (fun t ht => ht) fun t ht => ⟨[], ht, Or.inl rfl⟩
  · apply (counted_gameOver h).mono (fun t ht => ht.elim)
    intro t ht
    by_cases hwin : s.correctPositionsCount = secretCodeLen
    · rw [if_pos hwin] at ht
      exact ⟨[1], ht, Or.inr ⟨rfl, hwin⟩⟩
    · rw [if_neg hwin] at ht
      exact ⟨[], ht, Or.inl rfl⟩

/-- INTERNAL: scoring a guess.
SOURCE: server.c:555-580 -/
theorem counted_scoreGuess {s : Session} (h : Counted [] s) :
    Outcome (Counted []) (Closed []) (scoreGuess s) := by
  unfold scoreGuess
  refine Outcome.bind (counted_send  ?_ _ _) fun t ht => ?_
  · exact books_record h rfl
  · exact ht

end Comp30023.Interface
