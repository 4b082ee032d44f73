import Comp30023.Interface.BufferLaws
import Comp30023.Model.BusyWaiting

/-!
# The mutex guards the buffer

The threads that ask again and again use the same cells in the same way as those that wait for
semaphores, so what is known of an insertion and of a removal there holds here. The mutex is locked
exactly while one thread is between its calls for it.
-/

set_option autoImplicit false

namespace Comp30023.Interface

open Comp30023.Library Comp30023.Model

/-! ## The steps of a thread -/

/-- What a step of a thread can do.
SOURCE: producer-consumer-problem.c:42-105, 198-259 -/
inductive BusyMove : BusyWorker → LockedBuffer → BusyWorker → LockedBuffer → Prop
  | call {role : Role} {item item' : ℤ} {m : LockedBuffer} :
      BusyMove ⟨role, .outside, item⟩ m ⟨role, .tests false, item'⟩ m
  | succeed {role : Role} {item : ℤ} {m : LockedBuffer} :
      BusyMove ⟨role, .tests true, item⟩ m ⟨role, .outside, item⟩ m
  | attempt {role : Role} {item : ℤ} {m : LockedBuffer} (hrunning : m.isExiting = false) :
      BusyMove ⟨role, .tests false, item⟩ m ⟨role, .locks, item⟩ m
  | refuse {role : Role} {item : ℤ} {m : LockedBuffer} (hexiting : m.isExiting = true) :
      BusyMove ⟨role, .tests false, item⟩ m ⟨role, .rejected, item⟩ m
  | lock {role : Role} {item : ℤ} {m : LockedBuffer} (hfree : m.bufferLock = false) :
      BusyMove ⟨role, .locks, item⟩ m ⟨role, .inside, item⟩ { m with bufferLock := true }
  | insert {item : ℤ} {m m' : LockedBuffer} (hspace : 0 < m.bufferSpace)
      (hinsert : insertLocked item m = .ok m') :
      BusyMove ⟨.producer, .inside, item⟩ m ⟨.producer, .unlocks true, item⟩ m'
  | remove {item item' : ℤ} {m m' : LockedBuffer} (hitem : m.bufferSpace < bufferSize)
      (hremove : removeLocked m = .ok (item', m')) :
      BusyMove ⟨.consumer, .inside, item⟩ m ⟨.consumer, .unlocks true, item'⟩ m'
  | fail {role : Role} {item : ℤ} {m : LockedBuffer} :
      BusyMove ⟨role, .inside, item⟩ m ⟨role, .unlocks false, item⟩ m
  | unlock {role : Role} {success : Bool} {item : ℤ} {m : LockedBuffer} :
      BusyMove ⟨role, .unlocks success, item⟩ m ⟨role, .tests success, item⟩
        { m with bufferLock := false }
  | retry {role : Role} {item : ℤ} {m : LockedBuffer} (hrunning : m.isExiting = false) :
      BusyMove ⟨role, .rejected, item⟩ m ⟨role, .outside, item⟩ m
  | end {role : Role} {item : ℤ} {m : LockedBuffer} (hexiting : m.isExiting = true) :
      BusyMove ⟨role, .rejected, item⟩ m ⟨role, .returned, item⟩ m

/-- INTERNAL: every step is one of these.
SOURCE: producer-consumer-problem.c:42-105, 198-259 -/
theorem busyMove_of_steps {w w' : BusyWorker} {m m' : LockedBuffer} (h : BusySteps w m w' m') :
    BusyMove w m w' m' := by
  obtain ⟨rand, h⟩ := h
  obtain ⟨role, point, item⟩ := w
  cases point with
  | outside =>
    cases role
    all_goals
      cases h
      exact .call
  | tests success =>
    cases success with
    | true =>
      cases h
      exact .succeed
    | false =>
      cases hexiting : m.isExiting with
      | false =>
        simp only [busyStep, hexiting] at h
        cases h
        exact .attempt hexiting
      | true =>
        simp only [busyStep, hexiting] at h
        cases h
        exact .refuse hexiting
  | locks =>
    cases hlock : m.bufferLock with
    | true => simp [busyStep, hlock] at h
    | false =>
      simp only [busyStep, hlock] at h
      cases h
      exact .lock hlock
  | inside =>
    cases role with
    | producer =>
      by_cases hspace : bufferHasSpace m = true
      · simp only [busyStep, if_pos hspace] at h
        obtain ⟨m₁, hinsert, h⟩ := bind_eq_ok h
        cases h
        exact .insert (by simpa [bufferHasSpace] using hspace) hinsert
      · simp only [busyStep, if_neg hspace] at h
        cases h
        exact .fail
    | consumer =>
      by_cases hitem : bufferHasItem m = true
      · simp only [busyStep, if_pos hitem] at h
        obtain ⟨⟨item', m₁⟩, hremove, h⟩ := bind_eq_ok h
        cases h
        exact .remove (by simpa [bufferHasItem] using hitem) hremove
      · simp only [busyStep, if_neg hitem] at h
        cases h
        exact .fail
  | unlocks success =>
    cases h
    exact .unlock
  | rejected =>
    cases hexiting : m.isExiting with
    | false =>
      simp only [busyStep, hexiting] at h
      cases h
      exact .retry hexiting
    | true =>
      simp only [busyStep, hexiting] at h
      cases h
      exact .end hexiting
  | returned => cases h

/-! ## The buffer -/

/-- The buffer as the threads see it that wait for semaphores. -/
def plainBuffer (m : LockedBuffer) : BufferState :=
  { buffer := m.buffer
    bufferSpace := m.bufferSpace
    bufferSem := 0
    spaceSem := 0
    itemsSem := 0
    isExiting := m.isExiting
    inserted := m.inserted
    removed := m.removed }

/-- INTERNAL: an insertion does what it does there. -/
theorem insertLocked_eq (item : ℤ) (m : LockedBuffer) :
    insertLocked item m = (insertInside item (plainBuffer m)).map fun b =>
      { m with buffer := b.buffer, bufferSpace := b.bufferSpace, inserted := b.inserted } := by
  unfold insertLocked insertInside
  simp only [plainBuffer]
  cases storeCell m.buffer (bufferSize - m.bufferSpace) item <;> rfl

/-- INTERNAL: a removal does what it does there. -/
theorem removeLocked_eq (m : LockedBuffer) :
    removeLocked m = (removeInside (plainBuffer m)).map fun b =>
      (b.1, { m with
              buffer := b.2.buffer, bufferSpace := b.2.bufferSpace, removed := b.2.removed }) := by
  unfold removeLocked removeInside
  simp only [plainBuffer]
  cases loadCell m.buffer 0 with
  | error e => rfl
  | ok item => cases pushUp (bufferSize - m.bufferSpace - 1).toNat 0 m.buffer <;> rfl

/-- The items in the buffer. -/
def itemsIn (m : LockedBuffer) : List ℤ := contents (plainBuffer m)

/-- The cells of the buffer and the items that went through them. -/
structure QueueLaws (m : LockedBuffer) : Prop where
  length : m.buffer.length = bufferSize
  range : 0 ≤ m.bufferSpace ∧ m.bufferSpace ≤ bufferSize
  fifo : m.removed ++ itemsIn m = m.inserted

/-- SOURCE: producer-consumer-problem.c:57-62 -/
theorem QueueLaws.insert {m : LockedBuffer} (h : QueueLaws m) (item : ℤ)
    (hspace : 0 < m.bufferSpace) :
    ∃ m', insertLocked item m = .ok m' ∧ QueueLaws m' ∧ itemsIn m' = itemsIn m ++ [item] ∧
      m'.bufferLock = m.bufferLock ∧ m'.isExiting = m.isExiting := by
  obtain ⟨b, hinsert, hlength, hcontents⟩ :=
    insertInside_spec (m := plainBuffer m) item h.length hspace h.range.2
  obtain ⟨buffer, rfl⟩ := insertInside_frame hinsert
  refine ⟨{ m with
            buffer := buffer
            bufferSpace := m.bufferSpace - 1
            inserted := m.inserted ++ [item] }, ?_, ⟨hlength, ?_, ?_⟩, hcontents, rfl, rfl⟩
  · rw [insertLocked_eq, hinsert]
    rfl
  · have hrange := h.range
    dsimp only
    omega
  · have hfifo := h.fifo
    unfold itemsIn at hfifo ⊢
    simp only [plainBuffer] at hcontents hfifo ⊢
    rw [← hfifo, List.append_assoc, ← hcontents]
    rfl

/-- SOURCE: producer-consumer-problem.c:87-98 -/
theorem QueueLaws.remove {m : LockedBuffer} (h : QueueLaws m) (hitem : m.bufferSpace < bufferSize) :
    ∃ item m', removeLocked m = .ok (item, m') ∧ QueueLaws m' ∧ itemsIn m = item :: itemsIn m' ∧
      m'.bufferLock = m.bufferLock ∧ m'.isExiting = m.isExiting := by
  obtain ⟨item, b, hremove, hlength, hcontents⟩ :=
    removeInside_spec (m := plainBuffer m) h.length h.range.1 hitem
  obtain ⟨buffer, rfl⟩ := removeInside_frame hremove
  refine ⟨item, { m with
                  buffer := buffer
                  bufferSpace := m.bufferSpace + 1
                  removed := m.removed ++ [item] }, ?_, ⟨hlength, ?_, ?_⟩, hcontents, rfl, rfl⟩
  · rw [removeLocked_eq, hremove]
    rfl
  · have hrange := h.range
    dsimp only
    omega
  · have hfifo := h.fifo
    unfold itemsIn at hfifo ⊢
    simp only [plainBuffer] at hcontents hfifo ⊢
    rw [← hfifo, hcontents, List.append_assoc]
    rfl

/-! ## The mutex -/

/-- One for a thread between its calls for the mutex, zero for any other. -/
def isInside (w : BusyWorker) : ℤ :=
  match w.point with
  | .inside => 1
  | .unlocks _ => 1
  | _ => 0

/-- One if the mutex is locked. -/
def lockCount (m : LockedBuffer) : ℤ := if m.bufferLock then 1 else 0

/-- What every state has that the program can come to. -/
structure LockedLaws (s : Threads LockedBuffer BusyWorker) : Prop where
  lock : lockCount s.shared = total isInside s.threads
  queue : QueueLaws s.shared

section Moves

variable {w w' : BusyWorker} {m m' : LockedBuffer}

/-- INTERNAL: the flag stays as it is.
SOURCE: producer-consumer-problem.c:42-105 -/
theorem BusyMove.exiting (h : BusyMove w m w' m') (hm : QueueLaws m) :
    m'.isExiting = m.isExiting := by
  cases h with
  | insert hspace hinsert =>
    obtain ⟨m₁, hok, -, -, -, hexiting⟩ := hm.insert _ hspace
    obtain rfl := Except.ok.inj (hok.symm.trans hinsert)
    exact hexiting
  | remove hitem hremove =>
    obtain ⟨item, m₁, hok, -, -, -, hexiting⟩ := hm.remove hitem
    obtain ⟨-, rfl⟩ := Prod.mk.inj (Except.ok.inj (hok.symm.trans hremove))
    exact hexiting
  | _ => rfl

/-- INTERNAL: a thread that locks the mutex is then inside, and one that unlocks it was.
SOURCE: producer-consumer-problem.c:53, 65, 83, 101 -/
theorem BusyMove.lock_kept (h : BusyMove w m w' m') (hm : QueueLaws m)
    (hheld : isInside w = 1 → m.bufferLock = true) :
    lockCount m' + -isInside w' = lockCount m + -isInside w := by
  cases h with
  | lock hfree => simp [lockCount, isInside, hfree]
  | unlock => simp [lockCount, isInside, hheld rfl]
  | insert hspace hinsert =>
    obtain ⟨m₁, hok, -, -, hlock, -⟩ := hm.insert _ hspace
    obtain rfl := Except.ok.inj (hok.symm.trans hinsert)
    simp only [lockCount, hlock, isInside]
  | remove hitem hremove =>
    obtain ⟨item, m₁, hok, -, -, hlock, -⟩ := hm.remove hitem
    obtain ⟨-, rfl⟩ := Prod.mk.inj (Except.ok.inj (hok.symm.trans hremove))
    simp only [lockCount, hlock, isInside]
  | _ => rfl

/-- INTERNAL: every step keeps the cells and the items in order.
SOURCE: producer-consumer-problem.c:42-105 -/
theorem BusyMove.queue_kept (h : BusyMove w m w' m') (hm : QueueLaws m) : QueueLaws m' := by
  cases h with
  | insert hspace hinsert =>
    obtain ⟨m₁, hok, hm₁, -⟩ := hm.insert _ hspace
    obtain rfl := Except.ok.inj (hok.symm.trans hinsert)
    exact hm₁
  | remove hitem hremove =>
    obtain ⟨item, m₁, hok, hm₁, -⟩ := hm.remove hitem
    obtain ⟨-, rfl⟩ := Prod.mk.inj (Except.ok.inj (hok.symm.trans hremove))
    exact hm₁
  | lock => exact ⟨hm.length, hm.range, hm.fifo⟩
  | unlock => exact ⟨hm.length, hm.range, hm.fifo⟩
  | _ => exact hm

end Moves

section Runs

variable {s s' : Threads LockedBuffer BusyWorker}

theorem isInside_nonneg (w : BusyWorker) : 0 ≤ isInside w := by
  unfold isInside
  split <;> decide

/-- INTERNAL: the mutex is locked while a thread is inside. -/
theorem LockedLaws.held (h : LockedLaws s) {w : BusyWorker} (hw : w ∈ s.threads)
    (hinside : isInside w = 1) : s.shared.bufferLock = true := by
  have hle := le_total isInside_nonneg hw
  have hlock := h.lock
  by_contra hfree
  simp only [lockCount, if_neg hfree] at hlock
  omega

/-- INTERNAL: a locked mutex is held by a thread. -/
theorem LockedLaws.exists_inside (h : LockedLaws s) (hlocked : s.shared.bufferLock = true) :
    ∃ w ∈ s.threads, isInside w ≠ 0 := by
  have hlock := h.lock
  rw [lockCount, if_pos hlocked] at hlock
  exact exists_of_total_pos (by omega)

/-- INTERNAL: what holds before a step holds after it. -/
theorem LockedLaws.step (h : LockedLaws s) (hstep : LockedStep s s') : LockedLaws s' := by
  cases hstep with
  | exit => exact ⟨h.lock, h.queue.length, h.queue.range, h.queue.fifo⟩
  | worker hturn =>
    obtain ⟨ht, hmove⟩ := hturn
    rename_i i t t' m
    have hbusy := busyMove_of_steps hmove
    have hkept := hbusy.lock_kept h.queue fun hinside => h.held (List.mem_of_getElem? ht) hinside
    have htotal := total_set isInside t' ht
    have hlock := h.lock
    refine ⟨?_, hbusy.queue_kept h.queue⟩
    dsimp only
    omega

/-- What the program can come to is lawful. -/
theorem LockedLaws.of_reaches {nProducerThreads nConsumerThreads : ℕ}
    (h : LockedReaches nProducerThreads nConsumerThreads s) : LockedLaws s := by
  induction h with
  | refl =>
    refine ⟨?_, rfl, ⟨Int.natCast_nonneg _, le_rfl⟩, rfl⟩
    symm
    refine total_eq_zero fun w hw => ?_
    rcases List.mem_append.mp hw with hw | hw
    all_goals
      rw [List.eq_of_mem_replicate hw]
      rfl
  | tail _ hstep ih => exact ih.step hstep

end Runs

end Comp30023.Interface
