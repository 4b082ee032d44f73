import Comp30023.Interface.BufferLaws

/-!
# The buffer is a queue

Whatever the threads do in whatever order, the items come out of the buffer in the order in
which they went in. Seen from outside, the program is a queue of limited size.
-/

set_option autoImplicit false

namespace Comp30023.Analysis

open Comp30023.Library Comp30023.Model Comp30023.Interface

variable {s s' : Threads BufferState Worker}

/-- What a queue of limited size does: an item is put behind the others if there is room, or the
one at the front is taken. -/
inductive QueueStep {α : Type} (capacity : ℕ) : List α → List α → Prop
  | put {queue : List α} (x : α) (hroom : queue.length < capacity) :
      QueueStep capacity queue (queue ++ [x])
  | take {queue : List α} (x : α) : QueueStep capacity (x :: queue) queue

/-- INTERNAL: how many items there are. -/
theorem length_contents (h : BufferLaws s) :
    ((contents s.shared).length : ℤ) = bufferSize - s.shared.bufferSpace := by
  have hrange := h.range
  have hlength := h.length
  rw [contents, List.length_take]
  omega

/-- Every step of the program is a step of the queue, or none.
SOURCE: producer-consumer-problem-semaphore.c:36-105 -/
theorem refines_queue (h : BufferLaws s) (hstep : BufferStep s s') :
    contents s'.shared = contents s.shared ∨
      QueueStep bufferSize (contents s.shared) (contents s'.shared) := by
  have hcount := length_contents h
  cases hstep with
  | exit => exact Or.inl rfl
  | worker hturn =>
    obtain ⟨ht, hmove⟩ := hturn
    have hw := List.mem_of_getElem? ht
    cases workerMove_of_steps hmove with
    | insert hinsert =>
      rename_i item
      have hspace := h.has_space hw rfl rfl
      dsimp only
      rw [(h.after_insert hw hinsert).2]
      exact Or.inr (.put item (by omega))
    | remove hremove =>
      rw [(h.after_remove hw hremove).2]
      exact Or.inr (.take _)
    | _ => exact Or.inl rfl

/-- The buffer is used as a queue: the space is between nothing and all of the buffer, no thread
accesses the buffer outside of its cells, none inserts into a full buffer or removes from an
empty one, and the items removed so far and those in the buffer are the items inserted so far, in
this order. -/
structure FifoBuffer (s : Threads BufferState Worker) : Prop where
  range : 0 ≤ s.shared.bufferSpace ∧ s.shared.bufferSpace ≤ bufferSize
  indices : ∀ w ∈ s.threads, ∀ rand, workerStep rand w s.shared ≠ .error .indexOutOfRange
  insertion : ∀ w ∈ s.threads, w.role = .producer → w.point = .inside →
    (contents s.shared).length < bufferSize
  removal : ∀ w ∈ s.threads, w.role = .consumer → w.point = .inside → contents s.shared ≠ []
  fifo : s.shared.removed ++ contents s.shared = s.shared.inserted

/-- **The bounded buffer is a queue.** For any number of producers and consumers, any items and
any order of their steps: in every state that is reached, the buffer is used as a queue.
SOURCE: producer-consumer-problem-semaphore.c:36-105, 125-144 -/
theorem buffer_is_fifo {nProducerThreads nConsumerThreads : ℕ}
    (h : BufferReaches nProducerThreads nConsumerThreads s) : FifoBuffer s := by
  have hlaws := BufferLaws.of_reaches h
  have hcount := length_contents hlaws
  refine ⟨hlaws.range, ?_, ?_, ?_, hlaws.fifo⟩
  · intro w hw rand hfault
    rcases hlaws.progress hw rand with ⟨w', m, hok⟩ | ⟨hended, -⟩ | ⟨hblocked, -⟩
    · simp [hok] at hfault
    · simp [hended] at hfault
    · simp [hblocked] at hfault
  · intro w hw hrole hpoint
    have hspace := hlaws.has_space hw hrole hpoint
    omega
  · intro w hw hrole hpoint hempty
    have hitem := hlaws.has_item hw hrole hpoint
    rw [hempty, List.length_nil] at hcount
    omega

/-- Two items are inserted by two producers and one is removed.
SOURCE: producer-consumer-problem-semaphore.c:36-105 -/
theorem buffer_is_fifo_after_removal :
    ∃ s, BufferReaches 2 1 s ∧ s.shared.inserted = [7, 8] ∧ s.shared.removed = [7] ∧
      FifoBuffer s := by
  have hrun : runSchedule [(0, 7), (1, 8), (1, 0), (0, 0), (0, 0), (0, 0), (2, 0), (0, 0), (1, 0),
      (1, 0), (0, 0), (2, 0), (1, 0), (2, 0), (2, 0)] (bufferInitial 2 1) = .ok _ := rfl
  exact ⟨_, reaches_of_schedule hrun, rfl, rfl, buffer_is_fifo (reaches_of_schedule hrun)⟩

end Comp30023.Analysis
