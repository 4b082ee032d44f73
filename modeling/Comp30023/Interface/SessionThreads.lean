import Comp30023.Interface.SessionGame
import Comp30023.Model.AcceptLoop

/-!
# Session threads that run ahead

How the session of a thread and the events it has performed go together when the thread is
created, performs an event, or receives a guess.
-/

set_option autoImplicit false

namespace Comp30023.Interface

open Comp30023.Library Comp30023.Model

/-- What is known of a thread: it has performed a part of its trace, and `inv` holds of its
session if it goes on, `ending` if the session has ended. -/
structure ThreadWith (inv ending : Session → Prop) (thread : SessionThread) : Prop where
  performed : thread.performed ≤ thread.session.conn.trace.length
  goesOn : thread.isEnded = false → inv thread.session
  ended : thread.isEnded = true → ending thread.session

variable {inv ending : Session → Prop} {thread : SessionThread}

/-- INTERNAL: a new thread.
SOURCE: server.c:456, 483-538 -/
theorem threadWith_start {input : SessionInput} (h : Outcome inv ending (startSession input)) :
    ThreadWith inv ending (SessionThread.start input) ∧ (SessionThread.start input).done = [] := by
  unfold SessionThread.start SessionThread.done
  cases hstart : startSession input with
  | ok s =>
    rw [hstart] at h
    exact ⟨⟨Nat.zero_le _, fun _ => h, fun hended => by cases hended⟩, rfl⟩
  | error s =>
    rw [hstart] at h
    exact ⟨⟨Nat.zero_le _, fun hgoes => (by cases hgoes), fun _ => h⟩, rfl⟩

/-- INTERNAL: one event more. -/
theorem done_next {event : ServerEvent}
    (h : thread.session.conn.trace[thread.performed]? = some event) :
    thread.next.done = thread.done ++ [event] := by
  show thread.session.conn.trace.take (thread.performed + 1) =
    thread.session.conn.trace.take thread.performed ++ [event]
  rw [List.take_add_one, h, Option.toList_some]

theorem ThreadWith.next (h : ThreadWith inv ending thread) {event : ServerEvent}
    (hevent : thread.session.conn.trace[thread.performed]? = some event) :
    ThreadWith inv ending thread.next :=
  ⟨(List.getElem?_eq_some_iff.mp hevent).1, h.goesOn, h.ended⟩

/-- INTERNAL: a guess changes what the thread will do, not what it has done.
SOURCE: server.c:543-581 -/
theorem ThreadWith.receive (h : ThreadWith inv ending thread) (hgoes : thread.isEnded = false)
    {r : Received} (hcheck : Outcome inv ending (checkGuess r thread.session)) :
    ThreadWith inv ending (thread.receive r) ∧ (thread.receive r).done = thread.done := by
  have hboth := hcheck.and (follows_checkGuess r thread.session)
  have htake : ∀ {s : Session}, Follows thread.session s →
      s.conn.trace.take thread.performed = thread.done ∧
        thread.performed ≤ s.conn.trace.length := by
    rintro s ⟨events, hevents⟩
    rw [← hevents, List.take_append_of_le_length h.performed, List.length_append]
    exact ⟨rfl, Nat.le_add_right_of_le h.performed⟩
  unfold SessionThread.receive
  cases hresult : checkGuess r thread.session with
  | ok s =>
    rw [hresult] at hboth
    obtain ⟨hdone, hle⟩ := htake hboth.2
    exact ⟨⟨hle, fun _ => hboth.1, fun hended => by cases hgoes.symm.trans hended⟩, hdone⟩
  | error s =>
    rw [hresult] at hboth
    obtain ⟨hdone, hle⟩ := htake hboth.2
    exact ⟨⟨hle, fun hgoes => (by cases hgoes), fun _ => hboth.1⟩, hdone⟩

end Comp30023.Interface
