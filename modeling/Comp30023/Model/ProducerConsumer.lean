import Comp30023.Library.Threads

/-!
# Producers and consumers

`producer-consumer-problem-semaphore.c`: threads that insert items into a buffer of a fixed size
and threads that remove them. A step of a thread is a test of `is_exiting`, a `sem_wait()`, a
`sem_post()`, or all of the code between the `sem_wait()` and the `sem_post()` of `buffer_sem`,
which no other thread can interrupt. A `sem_wait()` of a semaphore that is zero blocks. An access
to the buffer outside of its cells is a fault.

All threads are there from the beginning: one that has not been created is like one that has not
taken a step. After it has set `is_exiting`, `main` only waits for the threads to return.
-/

set_option autoImplicit false

namespace Comp30023.Model

open Comp30023.Library

/-- SOURCE: producer-consumer-problem-semaphore.c:20 -/
def bufferSize : ℕ := 5

/-- The variables of all threads. `inserted` and `removed` are there for the statements only:
the items that were inserted and removed, in this order.
SOURCE: producer-consumer-problem-semaphore.c:17, 22-24 -/
structure BufferState where
  buffer : List ℤ
  bufferSpace : ℤ
  bufferSem : ℕ
  spaceSem : ℕ
  itemsSem : ℕ
  isExiting : Bool
  inserted : List ℤ
  removed : List ℤ
deriving Repr, DecidableEq

inductive Role where
  | producer
  | consumer
deriving Repr, DecidableEq

/-- Where a thread is. -/
inductive Point where
  /-- in its loop, before the call of `insert_item` or `remove_item` -/
  | outside
  /-- the call has returned -1 -/
  | rejected
  /-- at the `sem_wait()` of `space_sem` or `items_sem` -/
  | waitsToken
  /-- at the `sem_wait()` of `buffer_sem` -/
  | waitsBuffer
  /-- behind it -/
  | inside
  /-- at the `sem_post()` of `buffer_sem` -/
  | leaves
  /-- at the `sem_post()` of `items_sem` or `space_sem` -/
  | posts
  | returned
deriving Repr, DecidableEq

/-- A thread, and its variable `item`. -/
structure Worker where
  role : Role
  point : Point
  item : ℤ
deriving Repr, DecidableEq

/-- Why a thread does not take a step. -/
inductive Halt where
  | blocked
  | indexOutOfRange
  | ended
deriving Repr, DecidableEq

/-- `buffer[i]` -/
def loadCell (buffer : List ℤ) (i : ℤ) : Except Halt ℤ :=
  match if 0 ≤ i then buffer[i.toNat]? else none with
  | some x => .ok x
  | none => .error .indexOutOfRange

/-- `buffer[i] = x` -/
def storeCell (buffer : List ℤ) (i x : ℤ) : Except Halt (List ℤ) :=
  if 0 ≤ i ∧ i < buffer.length then .ok (buffer.set i.toNat x) else .error .indexOutOfRange

/-- The code of `insert_item` between the calls for `buffer_sem`.
SOURCE: producer-consumer-problem-semaphore.c:54-57 -/
def insertInside (item : ℤ) (m : BufferState) : Except Halt BufferState := do
  let bufPos := bufferSize - m.bufferSpace
  let buffer ← storeCell m.buffer bufPos item
  .ok { m with
        buffer := buffer
        bufferSpace := m.bufferSpace - 1
        inserted := m.inserted ++ [item] }

/-- The loop that pushes items up the buffer, from the index `i` on, with the number of passes
that are left.
SOURCE: producer-consumer-problem-semaphore.c:93-96 -/
def pushUp : ℕ → ℤ → List ℤ → Except Halt (List ℤ)
  | 0, _, buffer => .ok buffer
  | passes + 1, i, buffer => do
    let x ← loadCell buffer (i + 1)
    let buffer ← storeCell buffer i x
    pushUp passes (i + 1) buffer

/-- The code of `remove_item` between the calls for `buffer_sem`.
SOURCE: producer-consumer-problem-semaphore.c:87-96 -/
def removeInside (m : BufferState) : Except Halt (ℤ × BufferState) := do
  let bufPos := bufferSize - m.bufferSpace - 1
  let item ← loadCell m.buffer 0
  let buffer ← pushUp bufPos.toNat 0 m.buffer
  .ok (item, { m with
               buffer := buffer
               bufferSpace := m.bufferSpace + 1
               removed := m.removed ++ [item] })

/-- `sem_wait()` -/
def semWait (sem : ℕ) : Except Halt ℕ := if 0 < sem then .ok (sem - 1) else .error .blocked

/-- One step of a thread; `rand` is what its call of `rand()` returns.
SOURCE: producer-consumer-problem-semaphore.c:36-105, 213-274 -/
def workerStep (rand : ℤ) (w : Worker) (m : BufferState) : Except Halt (Worker × BufferState) :=
  match w.point, w.role with
  | .outside, .producer =>
    .ok (⟨w.role, if m.isExiting then .rejected else .waitsToken, rand⟩, m)
  | .outside, .consumer =>
    .ok ({ w with point := if m.isExiting then .rejected else .waitsToken }, m)
  | .rejected, _ => .ok ({ w with point := if m.isExiting then .returned else .outside }, m)
  | .waitsToken, .producer => do
    let spaceSem ← semWait m.spaceSem
    .ok ({ w with point := .waitsBuffer }, { m with spaceSem := spaceSem })
  | .waitsToken, .consumer => do
    let itemsSem ← semWait m.itemsSem
    .ok ({ w with point := .waitsBuffer }, { m with itemsSem := itemsSem })
  | .waitsBuffer, _ => do
    let bufferSem ← semWait m.bufferSem
    .ok ({ w with point := .inside }, { m with bufferSem := bufferSem })
  | .inside, .producer => do
    let m ← insertInside w.item m
    .ok ({ w with point := .leaves }, m)
  | .inside, .consumer => do
    let (item, m) ← removeInside m
    .ok (⟨w.role, .leaves, item⟩, m)
  | .leaves, _ => .ok ({ w with point := .posts }, { m with bufferSem := m.bufferSem + 1 })
  | .posts, .producer => .ok ({ w with point := .outside }, { m with itemsSem := m.itemsSem + 1 })
  | .posts, .consumer => .ok ({ w with point := .outside }, { m with spaceSem := m.spaceSem + 1 })
  | .returned, _ => .error .ended

/-- One step of a thread, whatever `rand()` returns. -/
def WorkerSteps (w : Worker) (m : BufferState) (w' : Worker) (m' : BufferState) : Prop :=
  ∃ rand, workerStep rand w m = .ok (w', m')

/-- `is_exiting = TRUE;` in `main`.
SOURCE: producer-consumer-problem-semaphore.c:182 -/
def setExiting (s : Threads BufferState Worker) : Threads BufferState Worker :=
  { s with shared := { s.shared with isExiting := true } }

/-- One step of the program: of a thread, or of `main`, which sets `is_exiting` once. -/
inductive BufferStep : Threads BufferState Worker → Threads BufferState Worker → Prop
  | worker {s s' : Threads BufferState Worker} (h : Turn WorkerSteps s s') : BufferStep s s'
  | exit {s : Threads BufferState Worker} (h : s.shared.isExiting = false) :
      BufferStep s (setExiting s)

/-- SOURCE: producer-consumer-problem-semaphore.c:17, 23, 125-176 -/
def bufferInitial (nProducerThreads nConsumerThreads : ℕ) : Threads BufferState Worker :=
  { shared :=
      { buffer := List.replicate bufferSize 0
        bufferSpace := bufferSize
        bufferSem := 1
        spaceSem := bufferSize
        itemsSem := 0
        isExiting := false
        inserted := []
        removed := [] }
    threads := List.replicate nProducerThreads ⟨.producer, .outside, 0⟩ ++
      List.replicate nConsumerThreads ⟨.consumer, .outside, 0⟩ }

/-- A state that the program can come to. -/
def BufferReaches (nProducerThreads nConsumerThreads : ℕ) (s : Threads BufferState Worker) : Prop :=
  Relation.ReflTransGen BufferStep (bufferInitial nProducerThreads nConsumerThreads) s

/-- The threads take their steps in the order of a schedule, which says for each step which
thread takes it and what `rand()` returns. -/
def runSchedule : List (ℕ × ℤ) → Threads BufferState Worker →
    Except Halt (Threads BufferState Worker)
  | [], s => .ok s
  | (i, rand) :: schedule, s =>
    match s.threads[i]? with
    | none => .error .ended
    | some w => do
      let (w, m) ← workerStep rand w s.shared
      runSchedule schedule ⟨m, s.threads.set i w⟩

end Comp30023.Model
