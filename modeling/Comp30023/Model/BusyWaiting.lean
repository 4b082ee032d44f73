import Comp30023.Model.ProducerConsumer

/-!
# Producers and consumers that ask again and again

`producer-consumer-problem.c`: the program without semaphores. A thread whose item does not fit,
or that finds no item, unlocks the mutex of the buffer and tries again. A step of a thread is a
test, a call for the mutex, or all of the code between them, which no other thread can interrupt;
a call for a mutex that is locked blocks. An access to the buffer outside of its cells is a fault.
-/

set_option autoImplicit false

namespace Comp30023.Model

open Comp30023.Library

/-- The variables of all threads. `inserted` and `removed` are there for the statements only:
the items that were inserted and removed, in this order.
SOURCE: producer-consumer-problem.c:16-23 -/
structure LockedBuffer where
  buffer : List ℤ
  bufferSpace : ℤ
  bufferLock : Bool
  isExiting : Bool
  inserted : List ℤ
  removed : List ℤ
deriving Repr, DecidableEq

/-- Where a thread is; `success` is its variable `is_inserted_item` or `is_removed_item`. -/
inductive BusyPoint where
  /-- in its loop, before the call of `insert_item` or `remove_item` -/
  | outside
  /-- at the test of the loop in that call -/
  | tests (success : Bool)
  /-- at the `pthread_mutex_lock()` -/
  | locks
  /-- behind it -/
  | inside
  /-- at the `pthread_mutex_unlock()` -/
  | unlocks (success : Bool)
  /-- the call has returned -1 -/
  | rejected
  | returned
deriving Repr, DecidableEq

/-- A thread, and its variable `item`. -/
structure BusyWorker where
  role : Role
  point : BusyPoint
  item : ℤ
deriving Repr, DecidableEq

/-- SOURCE: producer-consumer-problem.c:32-35 -/
def bufferHasSpace (m : LockedBuffer) : Bool := decide (m.bufferSpace > 0)

/-- SOURCE: producer-consumer-problem.c:37-40 -/
def bufferHasItem (m : LockedBuffer) : Bool := decide (m.bufferSpace < bufferSize)

/-- The code of `insert_item` for a buffer that has space.
SOURCE: producer-consumer-problem.c:57-62 -/
def insertLocked (item : ℤ) (m : LockedBuffer) : Except Halt LockedBuffer := do
  let bufPos := bufferSize - m.bufferSpace
  let buffer ← storeCell m.buffer bufPos item
  .ok { m with
        buffer := buffer
        bufferSpace := m.bufferSpace - 1
        inserted := m.inserted ++ [item] }

/-- The code of `remove_item` for a buffer that has an item.
SOURCE: producer-consumer-problem.c:87-96 -/
def removeLocked (m : LockedBuffer) : Except Halt (ℤ × LockedBuffer) := do
  let bufPos := bufferSize - m.bufferSpace - 1
  let item ← loadCell m.buffer 0
  let buffer ← pushUp bufPos.toNat 0 m.buffer
  .ok (item, { m with
               buffer := buffer
               bufferSpace := m.bufferSpace + 1
               removed := m.removed ++ [item] })

/-- One step of a thread; `rand` is what its call of `rand()` returns.
SOURCE: producer-consumer-problem.c:42-105, 198-259 -/
def busyStep (rand : ℤ) (w : BusyWorker) (m : LockedBuffer) :
    Except Halt (BusyWorker × LockedBuffer) :=
  match w.point, w.role with
  | .outside, .producer => .ok (⟨w.role, .tests false, rand⟩, m)
  | .outside, .consumer => .ok ({ w with point := .tests false }, m)
  | .tests true, _ => .ok ({ w with point := .outside }, m)
  | .tests false, _ => .ok ({ w with point := if m.isExiting then .rejected else .locks }, m)
  | .locks, _ =>
    if m.bufferLock then .error .blocked
    else .ok ({ w with point := .inside }, { m with bufferLock := true })
  | .inside, .producer =>
    if bufferHasSpace m then do
      let m ← insertLocked w.item m
      .ok ({ w with point := .unlocks true }, m)
    else .ok ({ w with point := .unlocks false }, m)
  | .inside, .consumer =>
    if bufferHasItem m then do
      let (item, m) ← removeLocked m
      .ok (⟨w.role, .unlocks true, item⟩, m)
    else .ok ({ w with point := .unlocks false }, m)
  | .unlocks success, _ =>
    .ok ({ w with point := .tests success }, { m with bufferLock := false })
  | .rejected, _ => .ok ({ w with point := if m.isExiting then .returned else .outside }, m)
  | .returned, _ => .error .ended

/-- One step of a thread, whatever `rand()` returns. -/
def BusySteps (w : BusyWorker) (m : LockedBuffer) (w' : BusyWorker) (m' : LockedBuffer) : Prop :=
  ∃ rand, busyStep rand w m = .ok (w', m')

/-- One step of the program: of a thread, or of `main`, which sets `is_exiting` once and then
waits for the threads to return.
SOURCE: producer-consumer-problem.c:172 -/
inductive LockedStep : Threads LockedBuffer BusyWorker → Threads LockedBuffer BusyWorker → Prop
  | worker {s s' : Threads LockedBuffer BusyWorker} (h : Turn BusySteps s s') : LockedStep s s'
  | exit {s : Threads LockedBuffer BusyWorker} (h : s.shared.isExiting = false) :
      LockedStep s { s with shared := { s.shared with isExiting := true } }

/-- SOURCE: producer-consumer-problem.c:16-23, 125-163 -/
def lockedInitial (nProducerThreads nConsumerThreads : ℕ) : Threads LockedBuffer BusyWorker :=
  { shared :=
      { buffer := List.replicate bufferSize 0
        bufferSpace := bufferSize
        bufferLock := false
        isExiting := false
        inserted := []
        removed := [] }
    threads := List.replicate nProducerThreads ⟨.producer, .outside, 0⟩ ++
      List.replicate nConsumerThreads ⟨.consumer, .outside, 0⟩ }

/-- A state that the program can come to. -/
def LockedReaches (nProducerThreads nConsumerThreads : ℕ)
    (s : Threads LockedBuffer BusyWorker) : Prop :=
  Relation.ReflTransGen LockedStep (lockedInitial nProducerThreads nConsumerThreads) s

end Comp30023.Model
