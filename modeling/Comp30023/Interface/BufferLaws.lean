import Comp30023.Library.Outcome
import Comp30023.Model.ProducerConsumer
import Mathlib.Data.List.Basic

/-!
# The semaphores count

A thread that has taken a token of `space_sem` and has not used it yet stands for a free cell of
the buffer, and so does a consumer that has freed a cell and has not posted it; in the same way
for `items_sem` and the occupied cells. `BufferLaws` says so: each semaphore and the number of
threads at certain points add up to `buffer_space`, to the number of items, or to one.
-/

set_option autoImplicit false

namespace Comp30023.Interface

open Comp30023.Library Comp30023.Model

/-! ## The steps of a thread -/

/-- What a step of a thread can do.
SOURCE: producer-consumer-problem-semaphore.c:36-105, 213-274 -/
inductive WorkerMove : Worker → BufferState → Worker → BufferState → Prop
  | call {role : Role} {item item' : ℤ} {m : BufferState} (hrunning : m.isExiting = false) :
      WorkerMove ⟨role, .outside, item⟩ m ⟨role, .waitsToken, item'⟩ m
  | refuse {role : Role} {item item' : ℤ} {m : BufferState} (hexiting : m.isExiting = true) :
      WorkerMove ⟨role, .outside, item⟩ m ⟨role, .rejected, item'⟩ m
  | retry {role : Role} {item : ℤ} {m : BufferState} (hrunning : m.isExiting = false) :
      WorkerMove ⟨role, .rejected, item⟩ m ⟨role, .outside, item⟩ m
  | end {role : Role} {item : ℤ} {m : BufferState} (hexiting : m.isExiting = true) :
      WorkerMove ⟨role, .rejected, item⟩ m ⟨role, .returned, item⟩ m
  | takeSpace {item : ℤ} {m : BufferState} (htoken : 0 < m.spaceSem) :
      WorkerMove ⟨.producer, .waitsToken, item⟩ m ⟨.producer, .waitsBuffer, item⟩
        { m with spaceSem := m.spaceSem - 1 }
  | takeItem {item : ℤ} {m : BufferState} (htoken : 0 < m.itemsSem) :
      WorkerMove ⟨.consumer, .waitsToken, item⟩ m ⟨.consumer, .waitsBuffer, item⟩
        { m with itemsSem := m.itemsSem - 1 }
  | lock {role : Role} {item : ℤ} {m : BufferState} (hfree : 0 < m.bufferSem) :
      WorkerMove ⟨role, .waitsBuffer, item⟩ m ⟨role, .inside, item⟩
        { m with bufferSem := m.bufferSem - 1 }
  | insert {item : ℤ} {m m' : BufferState} (hinsert : insertInside item m = .ok m') :
      WorkerMove ⟨.producer, .inside, item⟩ m ⟨.producer, .leaves, item⟩ m'
  | remove {item item' : ℤ} {m m' : BufferState} (hremove : removeInside m = .ok (item', m')) :
      WorkerMove ⟨.consumer, .inside, item⟩ m ⟨.consumer, .leaves, item'⟩ m'
  | unlock {role : Role} {item : ℤ} {m : BufferState} :
      WorkerMove ⟨role, .leaves, item⟩ m ⟨role, .posts, item⟩
        { m with bufferSem := m.bufferSem + 1 }
  | postItem {item : ℤ} {m : BufferState} :
      WorkerMove ⟨.producer, .posts, item⟩ m ⟨.producer, .outside, item⟩
        { m with itemsSem := m.itemsSem + 1 }
  | postSpace {item : ℤ} {m : BufferState} :
      WorkerMove ⟨.consumer, .posts, item⟩ m ⟨.consumer, .outside, item⟩
        { m with spaceSem := m.spaceSem + 1 }

/-- INTERNAL: a token that was taken. -/
theorem semWait_ok {sem sem' : ℕ} (h : semWait sem = .ok sem') : 0 < sem ∧ sem' = sem - 1 := by
  unfold semWait at h
  split at h
  case isTrue hpos =>
    cases h
    exact ⟨hpos, rfl⟩
  case isFalse => cases h

/-- INTERNAL: every step is one of these.
SOURCE: producer-consumer-problem-semaphore.c:36-105, 213-274 -/
theorem workerMove_of_steps {w w' : Worker} {m m' : BufferState} (h : WorkerSteps w m w' m') :
    WorkerMove w m w' m' := by
  obtain ⟨rand, h⟩ := h
  obtain ⟨role, point, item⟩ := w
  cases point with
  | outside =>
    cases hexiting : m.isExiting with
    | false =>
      cases role
      all_goals
        simp only [workerStep, hexiting] at h
        cases h
        exact .call hexiting
    | true =>
      cases role
      all_goals
        simp only [workerStep, hexiting] at h
        cases h
        exact .refuse hexiting
  | rejected =>
    cases hexiting : m.isExiting with
    | false =>
      simp only [workerStep, hexiting] at h
      cases h
      exact .retry hexiting
    | true =>
      simp only [workerStep, hexiting] at h
      cases h
      exact .end hexiting
  | waitsToken =>
    cases role with
    | producer =>
      obtain ⟨sem, hwait, h⟩ := bind_eq_ok h
      obtain ⟨hpos, rfl⟩ := semWait_ok hwait
      cases h
      exact .takeSpace hpos
    | consumer =>
      obtain ⟨sem, hwait, h⟩ := bind_eq_ok h
      obtain ⟨hpos, rfl⟩ := semWait_ok hwait
      cases h
      exact .takeItem hpos
  | waitsBuffer =>
    obtain ⟨sem, hwait, h⟩ := bind_eq_ok h
    obtain ⟨hpos, rfl⟩ := semWait_ok hwait
    cases h
    exact .lock hpos
  | inside =>
    cases role with
    | producer =>
      obtain ⟨m₁, hinsert, h⟩ := bind_eq_ok h
      cases h
      exact .insert hinsert
    | consumer =>
      obtain ⟨⟨item', m₁⟩, hremove, h⟩ := bind_eq_ok h
      cases h
      exact .remove hremove
  | leaves =>
    cases h
    exact .unlock
  | posts =>
    cases role with
    | producer =>
      cases h
      exact .postItem
    | consumer =>
      cases h
      exact .postSpace
  | returned => cases h

/-- INTERNAL: a schedule is a run. -/
theorem reaches_of_schedule {schedule : List (ℕ × ℤ)} {s s' : Threads BufferState Worker}
    (h : runSchedule schedule s = .ok s') : Relation.ReflTransGen BufferStep s s' := by
  induction schedule generalizing s with
  | nil =>
    cases h
    exact .refl
  | cons choice schedule ih =>
    obtain ⟨i, rand⟩ := choice
    unfold runSchedule at h
    split at h
    case h_1 => cases h
    case h_2 w hw =>
      obtain ⟨⟨w', m⟩, hstep, h⟩ := bind_eq_ok h
      exact (ih h).head (.worker (.take hw ⟨rand, hstep⟩))

/-! ## The buffer -/

/-- The items in the buffer. -/
def contents (m : BufferState) : List ℤ := m.buffer.take (bufferSize - m.bufferSpace).toNat

/-- INTERNAL: a cell is read. -/
theorem loadCell_append (before : List ℤ) (x : ℤ) (after : List ℤ) :
    loadCell (before ++ x :: after) before.length = .ok x := by
  simp [loadCell]

/-- INTERNAL: a cell is stored to. -/
theorem storeCell_append (before : List ℤ) (x y : ℤ) (after : List ℤ) :
    storeCell (before ++ x :: after) before.length y = .ok (before ++ y :: after) := by
  simp [storeCell]

/-- INTERNAL: what an insertion leaves alone.
SOURCE: producer-consumer-problem-semaphore.c:54-57 -/
theorem insertInside_frame {item : ℤ} {m m' : BufferState} (h : insertInside item m = .ok m') :
    ∃ buffer, m' = { m with
                     buffer := buffer
                     bufferSpace := m.bufferSpace - 1
                     inserted := m.inserted ++ [item] } := by
  obtain ⟨buffer, -, h⟩ := bind_eq_ok h
  cases h
  exact ⟨buffer, rfl⟩

/-- INTERNAL: what a removal leaves alone.
SOURCE: producer-consumer-problem-semaphore.c:87-96 -/
theorem removeInside_frame {item : ℤ} {m m' : BufferState} (h : removeInside m = .ok (item, m')) :
    ∃ buffer, m' = { m with
                     buffer := buffer
                     bufferSpace := m.bufferSpace + 1
                     removed := m.removed ++ [item] } := by
  obtain ⟨item', -, h⟩ := bind_eq_ok h
  obtain ⟨buffer, -, h⟩ := bind_eq_ok h
  cases h
  exact ⟨buffer, rfl⟩

/-- An insertion into a buffer that is not full puts the item behind the others.
SOURCE: producer-consumer-problem-semaphore.c:54-57 -/
theorem insertInside_spec {m : BufferState} (item : ℤ) (hlength : m.buffer.length = bufferSize)
    (hspace : 0 < m.bufferSpace) (hle : m.bufferSpace ≤ bufferSize) :
    ∃ m', insertInside item m = .ok m' ∧ m'.buffer.length = bufferSize ∧
      contents m' = contents m ++ [item] := by
  have hlt : ((bufferSize : ℤ) - m.bufferSpace).toNat < m.buffer.length := by omega
  have hstore : storeCell m.buffer (bufferSize - m.bufferSpace) item =
      .ok (m.buffer.set (bufferSize - m.bufferSpace).toNat item) := by
    unfold storeCell
    rw [if_pos (by omega)]
  refine ⟨{ m with
            buffer := m.buffer.set (bufferSize - m.bufferSpace).toNat item
            bufferSpace := m.bufferSpace - 1
            inserted := m.inserted ++ [item] }, ?_, ?_, ?_⟩
  · simp only [insertInside, hstore, bind, Except.bind]
  · simpa using hlength
  · have hnext : ((bufferSize : ℤ) - (m.bufferSpace - 1)).toNat =
        (bufferSize - m.bufferSpace).toNat + 1 := by omega
    simp only [contents, hnext]
    rw [List.take_add_one, List.take_set_of_le (Nat.le_refl _), List.getElem?_set_self hlt]
    rfl

/-- INTERNAL: the loop of a removal.
SOURCE: producer-consumer-problem-semaphore.c:93-96 -/
theorem pushUp_spec (before : List ℤ) (x : ℤ) (items rest : List ℤ) :
    ∃ rest', pushUp items.length before.length (before ++ x :: (items ++ rest)) =
        .ok (before ++ (items ++ rest')) ∧ rest'.length = rest.length + 1 := by
  induction items generalizing before x with
  | nil => exact ⟨x :: rest, rfl, rfl⟩
  | cons y items ih =>
    obtain ⟨rest', hpush, hlength⟩ := ih (before ++ [y]) y
    refine ⟨rest', ?_, hlength⟩
    have hload := loadCell_append (before ++ [x]) y (items ++ rest)
    have hstore := storeCell_append before x y (y :: (items ++ rest))
    simp only [List.append_assoc, List.singleton_append, List.length_append, List.length_cons,
      List.length_nil, Nat.zero_add, Nat.cast_add, Nat.cast_one] at hpush hload
    simp only [List.length_cons, List.cons_append, pushUp, hload, bind, Except.bind, hstore, hpush]

/-- A removal from a buffer that is not empty takes the item at the front.
SOURCE: producer-consumer-problem-semaphore.c:87-96 -/
theorem removeInside_spec {m : BufferState} (hlength : m.buffer.length = bufferSize)
    (hspace : 0 ≤ m.bufferSpace) (hlt : m.bufferSpace < bufferSize) :
    ∃ item m', removeInside m = .ok (item, m') ∧ m'.buffer.length = bufferSize ∧
      contents m = item :: contents m' := by
  obtain ⟨n, hn⟩ : ∃ n, (bufferSize - m.bufferSpace).toNat = n + 1 :=
    ⟨(bufferSize - m.bufferSpace).toNat - 1, by omega⟩
  have hle : n + 1 ≤ m.buffer.length := by omega
  -- the item at the front, those behind it and the free cells
  obtain ⟨item, items, hitems⟩ := List.exists_cons_of_length_eq_add_one
    (List.length_take_of_le hle)
  have hcount : items.length = n := by
    have := congrArg List.length hitems
    rw [List.length_take_of_le hle, List.length_cons] at this
    omega
  have hbuffer : m.buffer = [] ++ item :: (items ++ m.buffer.drop (n + 1)) := by
    rw [List.nil_append, ← List.cons_append, ← hitems, List.take_append_drop]
  have hload : loadCell m.buffer 0 = .ok item := by
    rw [hbuffer]
    exact loadCell_append [] item _
  obtain ⟨rest', hpush, hrest⟩ := pushUp_spec [] item items (m.buffer.drop (n + 1))
  rw [← hbuffer, hcount, List.nil_append] at hpush
  have hpasses : ((bufferSize : ℤ) - m.bufferSpace - 1).toNat = n := by omega
  refine ⟨item, { m with
                  buffer := items ++ rest'
                  bufferSpace := m.bufferSpace + 1
                  removed := m.removed ++ [item] }, ?_, ?_, ?_⟩
  · simp only [removeInside, hload, bind, Except.bind, hpasses]
    simp only [List.length_nil, Nat.cast_zero] at hpush
    rw [hpush]
  · rw [List.length_append, hrest, List.length_drop, hcount, hlength]
    omega
  · have hnext : ((bufferSize : ℤ) - (m.bufferSpace + 1)).toNat = items.length := by omega
    simp only [contents, hn, hnext, hitems]
    rw [List.take_left]

/-! ## Counting threads -/

/-- One for a thread of this role at one of these points, zero for any other. -/
def isAt (role : Role) (points : List Point) (w : Worker) : ℤ :=
  if w.role = role ∧ w.point ∈ points then 1 else 0

/-- How many threads of this role are at one of these points. -/
def number (role : Role) (points : List Point) (s : Threads BufferState Worker) : ℤ :=
  total (isAt role points) s.threads

/-- INTERNAL: threads are counted. -/
theorem number_nonneg (role : Role) (points : List Point) (s : Threads BufferState Worker) :
    0 ≤ number role points s := by
  refine total_nonneg ?_ s.threads
  intro w
  unfold isAt
  split <;> decide

/-- The semaphores and the threads at the points between them add up. -/
structure BufferLaws (s : Threads BufferState Worker) : Prop where
  lock : s.shared.bufferSem + number .producer [.inside, .leaves] s +
    number .consumer [.inside, .leaves] s = 1
  space : s.shared.spaceSem + number .producer [.waitsBuffer, .inside] s +
    number .consumer [.leaves, .posts] s = s.shared.bufferSpace
  items : s.shared.itemsSem + number .consumer [.waitsBuffer, .inside] s +
    number .producer [.leaves, .posts] s = bufferSize - s.shared.bufferSpace
  length : s.shared.buffer.length = bufferSize
  fifo : s.shared.removed ++ contents s.shared = s.shared.inserted

/-- INTERNAL: what every step of a thread keeps, with the numbers of threads of the two roles at
certain points. -/
theorem number_conserved {s s' : Threads BufferState Worker} {q : BufferState → ℤ}
    {producerPoints consumerPoints : List Point}
    (hmove : ∀ w w' m', WorkerMove w s.shared w' m' →
      q m' + (isAt .producer producerPoints w' + isAt .consumer consumerPoints w') =
        q s.shared + (isAt .producer producerPoints w + isAt .consumer consumerPoints w))
    (h : Turn WorkerSteps s s') :
    q s'.shared + number .producer producerPoints s' + number .consumer consumerPoints s' =
      q s.shared + number .producer producerPoints s + number .consumer consumerPoints s := by
  have hsum := Turn.conserves (q := q)
    (f := fun w => isAt .producer producerPoints w + isAt .consumer consumerPoints w)
    (fun w w' m' hstep => hmove w w' m' (workerMove_of_steps hstep)) h
  rw [total_add, total_add] at hsum
  unfold number
  omega

section Moves

variable {w w' : Worker} {m m' : BufferState}

/-- INTERNAL: the lock of the buffer is free or held by one thread.
SOURCE: producer-consumer-problem-semaphore.c:52, 61, 85, 100 -/
theorem lock_kept (h : WorkerMove w m w' m') :
    (m'.bufferSem : ℤ) +
        (isAt .producer [.inside, .leaves] w' + isAt .consumer [.inside, .leaves] w') =
      m.bufferSem + (isAt .producer [.inside, .leaves] w + isAt .consumer [.inside, .leaves] w) := by
  cases h with
  | lock hfree =>
    rename_i role item
    cases role with
    | producer =>
      change ((m.bufferSem - 1 : ℕ) : ℤ) + (1 + 0) = m.bufferSem + (0 + 0)
      omega
    | consumer =>
      change ((m.bufferSem - 1 : ℕ) : ℤ) + (0 + 1) = m.bufferSem + (0 + 0)
      omega
  | unlock =>
    rename_i role item
    cases role <;> simp [isAt]
  | insert hinsert =>
    obtain ⟨buffer, rfl⟩ := insertInside_frame hinsert
    simp [isAt]
  | remove hremove =>
    obtain ⟨buffer, rfl⟩ := removeInside_frame hremove
    simp [isAt]
  | _ => simp [isAt]

/-- INTERNAL: a free cell has a token, or a thread that stands for it.
SOURCE: producer-consumer-problem-semaphore.c:50, 57, 90, 102 -/
theorem space_kept (h : WorkerMove w m w' m') :
    (m'.spaceSem - m'.bufferSpace : ℤ) +
        (isAt .producer [.waitsBuffer, .inside] w' + isAt .consumer [.leaves, .posts] w') =
      m.spaceSem - m.bufferSpace +
        (isAt .producer [.waitsBuffer, .inside] w + isAt .consumer [.leaves, .posts] w) := by
  cases h with
  | takeSpace htoken =>
    change ((m.spaceSem - 1 : ℕ) - m.bufferSpace : ℤ) + (1 + 0) =
      m.spaceSem - m.bufferSpace + (0 + 0)
    omega
  | insert hinsert =>
    obtain ⟨buffer, rfl⟩ := insertInside_frame hinsert
    change (m.spaceSem - (m.bufferSpace - 1) : ℤ) + (0 + 0) =
      m.spaceSem - m.bufferSpace + (1 + 0)
    omega
  | remove hremove =>
    obtain ⟨buffer, rfl⟩ := removeInside_frame hremove
    change (m.spaceSem - (m.bufferSpace + 1) : ℤ) + (0 + 1) =
      m.spaceSem - m.bufferSpace + (0 + 0)
    omega
  | postSpace =>
    change ((m.spaceSem + 1 : ℕ) - m.bufferSpace : ℤ) + (0 + 0) =
      m.spaceSem - m.bufferSpace + (0 + 1)
    omega
  | _ => simp [isAt]

/-- INTERNAL: an item has a token, or a thread that stands for it.
SOURCE: producer-consumer-problem-semaphore.c:57, 63, 83, 90 -/
theorem items_kept (h : WorkerMove w m w' m') :
    (m'.itemsSem + m'.bufferSpace : ℤ) +
        (isAt .producer [.leaves, .posts] w' + isAt .consumer [.waitsBuffer, .inside] w') =
      m.itemsSem + m.bufferSpace +
        (isAt .producer [.leaves, .posts] w + isAt .consumer [.waitsBuffer, .inside] w) := by
  cases h with
  | takeItem htoken =>
    change ((m.itemsSem - 1 : ℕ) + m.bufferSpace : ℤ) + (0 + 1) =
      m.itemsSem + m.bufferSpace + (0 + 0)
    omega
  | insert hinsert =>
    obtain ⟨buffer, rfl⟩ := insertInside_frame hinsert
    change (m.itemsSem + (m.bufferSpace - 1) : ℤ) + (1 + 0) =
      m.itemsSem + m.bufferSpace + (0 + 0)
    omega
  | remove hremove =>
    obtain ⟨buffer, rfl⟩ := removeInside_frame hremove
    change (m.itemsSem + (m.bufferSpace + 1) : ℤ) + (0 + 0) =
      m.itemsSem + m.bufferSpace + (0 + 1)
    omega
  | postItem =>
    change ((m.itemsSem + 1 : ℕ) + m.bufferSpace : ℤ) + (0 + 0) =
      m.itemsSem + m.bufferSpace + (1 + 0)
    omega
  | _ => simp [isAt]

end Moves

/-! ## The laws hold -/

section Laws

variable {s s' : Threads BufferState Worker} {w : Worker}

/-- INTERNAL: a thread at one of the points is counted. -/
theorem one_le_number {role : Role} (points : List Point) (hw : w ∈ s.threads)
    (hrole : w.role = role) (hpoint : w.point ∈ points) : 1 ≤ number role points s := by
  have hone : isAt role points w = 1 := if_pos ⟨hrole, hpoint⟩
  rw [← hone]
  refine le_total ?_ hw
  intro v
  unfold isAt
  split <;> decide

/-- The space lies between nothing and all of the buffer. -/
theorem BufferLaws.range (h : BufferLaws s) :
    0 ≤ s.shared.bufferSpace ∧ s.shared.bufferSpace ≤ bufferSize := by
  have hspace := h.space
  have hitems := h.items
  have := number_nonneg .producer [.waitsBuffer, .inside] s
  have := number_nonneg .consumer [.leaves, .posts] s
  have := number_nonneg .consumer [.waitsBuffer, .inside] s
  have := number_nonneg .producer [.leaves, .posts] s
  omega

/-- A producer inside finds a free cell. -/
theorem BufferLaws.has_space (h : BufferLaws s) (hw : w ∈ s.threads) (hrole : w.role = .producer)
    (hpoint : w.point = .inside) : 0 < s.shared.bufferSpace := by
  have hspace := h.space
  have := one_le_number [.waitsBuffer, .inside] hw hrole (by simp [hpoint])
  have := number_nonneg .consumer [.leaves, .posts] s
  omega

/-- A consumer inside finds an item. -/
theorem BufferLaws.has_item (h : BufferLaws s) (hw : w ∈ s.threads) (hrole : w.role = .consumer)
    (hpoint : w.point = .inside) : s.shared.bufferSpace < bufferSize := by
  have hitems := h.items
  have := one_le_number [.waitsBuffer, .inside] hw hrole (by simp [hpoint])
  have := number_nonneg .producer [.leaves, .posts] s
  omega

/-- INTERNAL: the buffer after the insertion of a producer that is inside.
SOURCE: producer-consumer-problem-semaphore.c:54-57 -/
theorem BufferLaws.after_insert (h : BufferLaws s) {item : ℤ} {m : BufferState}
    (hw : ⟨.producer, .inside, item⟩ ∈ s.threads) (hinsert : insertInside item s.shared = .ok m) :
    m.buffer.length = bufferSize ∧ contents m = contents s.shared ++ [item] := by
  obtain ⟨m', hm', hlength, hcontents⟩ :=
    insertInside_spec item h.length (h.has_space hw rfl rfl) h.range.2
  obtain rfl := Except.ok.inj (hinsert.symm.trans hm')
  exact ⟨hlength, hcontents⟩

/-- INTERNAL: the buffer after the removal of a consumer that is inside.
SOURCE: producer-consumer-problem-semaphore.c:87-96 -/
theorem BufferLaws.after_remove (h : BufferLaws s) {item item' : ℤ} {m : BufferState}
    (hw : ⟨.consumer, .inside, item⟩ ∈ s.threads)
    (hremove : removeInside s.shared = .ok (item', m)) :
    m.buffer.length = bufferSize ∧ contents s.shared = item' :: contents m := by
  obtain ⟨x, m', hm', hlength, hcontents⟩ :=
    removeInside_spec h.length h.range.1 (h.has_item hw rfl rfl)
  obtain ⟨rfl, rfl⟩ := Prod.mk.inj (Except.ok.inj (hremove.symm.trans hm'))
  exact ⟨hlength, hcontents⟩

/-- INTERNAL: the cells and the order of the items after a step of a thread.
SOURCE: producer-consumer-problem-semaphore.c:54-57, 87-96 -/
theorem BufferLaws.cells (h : BufferLaws s) (hturn : Turn WorkerSteps s s') :
    s'.shared.buffer.length = bufferSize ∧
      s'.shared.removed ++ contents s'.shared = s'.shared.inserted := by
  obtain ⟨ht, hstep⟩ := hturn
  have hw := List.mem_of_getElem? ht
  cases workerMove_of_steps hstep with
  | insert hinsert =>
    obtain ⟨hlength, hcontents⟩ := h.after_insert hw hinsert
    refine ⟨hlength, ?_⟩
    obtain ⟨buffer, hframe⟩ := insertInside_frame hinsert
    have hremoved := congrArg BufferState.removed hframe
    have hinserted := congrArg BufferState.inserted hframe
    dsimp only at hremoved hinserted ⊢
    rw [hremoved, hinserted, hcontents, ← List.append_assoc, h.fifo]
  | remove hremove =>
    obtain ⟨hlength, hcontents⟩ := h.after_remove hw hremove
    refine ⟨hlength, ?_⟩
    obtain ⟨buffer, hframe⟩ := removeInside_frame hremove
    have hremoved := congrArg BufferState.removed hframe
    have hinserted := congrArg BufferState.inserted hframe
    dsimp only at hremoved hinserted ⊢
    rw [hremoved, hinserted, List.append_assoc, List.singleton_append, ← hcontents, h.fifo]
  | _ => exact ⟨h.length, h.fifo⟩

/-- Every step of the program keeps the laws. -/
theorem BufferLaws.step (h : BufferLaws s) (hstep : BufferStep s s') : BufferLaws s' := by
  cases hstep with
  | worker hturn =>
    obtain ⟨hlength, hfifo⟩ := h.cells hturn
    have hlock := number_conserved (q := fun m => m.bufferSem) (fun _ _ _ => lock_kept) hturn
    have hspace := number_conserved (q := fun m => m.spaceSem - m.bufferSpace)
      (fun _ _ _ => space_kept) hturn
    have hitems := number_conserved (q := fun m => m.itemsSem + m.bufferSpace)
      (fun _ _ _ => items_kept) hturn
    have hlock' := h.lock
    have hspace' := h.space
    have hitems' := h.items
    exact ⟨by omega, by omega, by omega, hlength, hfifo⟩
  | exit => exact ⟨h.lock, h.space, h.items, h.length, h.fifo⟩

/-- The semaphore from which a thread takes its token. -/
def tokenSem : Role → BufferState → ℕ
  | .producer, m => m.spaceSem
  | .consumer, m => m.itemsSem

/-- A thread takes a step, unless it has returned or waits for a semaphore that is zero: no access
to the buffer is outside of it.
SOURCE: producer-consumer-problem-semaphore.c:36-105, 213-274 -/
theorem BufferLaws.progress (h : BufferLaws s) (hw : w ∈ s.threads) (rand : ℤ) :
    (∃ w' m, workerStep rand w s.shared = .ok (w', m)) ∨
      (workerStep rand w s.shared = .error .ended ∧ w.point = .returned) ∨
      (workerStep rand w s.shared = .error .blocked ∧
        (w.point = .waitsToken ∧ tokenSem w.role s.shared = 0 ∨
          w.point = .waitsBuffer ∧ s.shared.bufferSem = 0)) := by
  have hwait : ∀ sem, semWait sem = .ok (sem - 1) ∨ semWait sem = .error .blocked ∧ sem = 0 := by
    intro sem
    unfold semWait
    split
    · exact Or.inl rfl
    · exact Or.inr ⟨rfl, by omega⟩
  have hspace := h.has_space hw
  have hitem := h.has_item hw
  obtain ⟨role, point, item⟩ := w
  cases point with
  | outside => cases role <;> exact Or.inl ⟨_, _, rfl⟩
  | rejected => exact Or.inl ⟨_, _, rfl⟩
  | waitsToken =>
    cases role with
    | producer =>
      rcases hwait s.shared.spaceSem with hok | ⟨hblocked, hzero⟩
      · left
        simp [workerStep, hok, bind, Except.bind]
      · refine Or.inr (Or.inr ⟨?_, Or.inl ⟨rfl, hzero⟩⟩)
        simp only [workerStep, hblocked, bind, Except.bind]
    | consumer =>
      rcases hwait s.shared.itemsSem with hok | ⟨hblocked, hzero⟩
      · left
        simp [workerStep, hok, bind, Except.bind]
      · refine Or.inr (Or.inr ⟨?_, Or.inl ⟨rfl, hzero⟩⟩)
        simp only [workerStep, hblocked, bind, Except.bind]
  | waitsBuffer =>
    rcases hwait s.shared.bufferSem with hok | ⟨hblocked, hzero⟩
    · left
      simp [workerStep, hok, bind, Except.bind]
    · refine Or.inr (Or.inr ⟨?_, Or.inr ⟨rfl, hzero⟩⟩)
      simp only [workerStep, hblocked, bind, Except.bind]
  | inside =>
    cases role with
    | producer =>
      obtain ⟨m, hinsert, -⟩ := insertInside_spec item h.length (hspace rfl rfl) h.range.2
      left
      simp [workerStep, hinsert, bind, Except.bind]
    | consumer =>
      obtain ⟨item', m, hremove, -⟩ := removeInside_spec h.length h.range.1 (hitem rfl rfl)
      left
      simp [workerStep, hremove, bind, Except.bind]
  | leaves => exact Or.inl ⟨_, _, rfl⟩
  | posts => cases role <;> exact Or.inl ⟨_, _, rfl⟩
  | returned => exact Or.inr (Or.inl ⟨rfl, rfl⟩)

/-- INTERNAL: there is no such thread. -/
theorem number_eq_zero {role : Role} {points : List Point}
    (hnone : ∀ w ∈ s.threads, w.role = role → w.point ∉ points) : number role points s = 0 := by
  refine total_eq_zero fun w hw => if_neg ?_
  rintro ⟨hrole, hpoint⟩
  exact hnone w hw hrole hpoint

/-- INTERNAL: no thread is counted before it has taken a step. -/
theorem number_initial (nProducerThreads nConsumerThreads : ℕ) {role : Role} {points : List Point}
    (hpoints : Point.outside ∉ points) :
    number role points (bufferInitial nProducerThreads nConsumerThreads) = 0 := by
  refine number_eq_zero fun w hw _ => ?_
  have hpoint : w.point = .outside := by
    rcases List.mem_append.mp hw with hw | hw
    · rw [List.eq_of_mem_replicate hw]
    · rw [List.eq_of_mem_replicate hw]
  rwa [hpoint]

/-- The laws hold in every state that the program can come to. -/
theorem BufferLaws.of_reaches {nProducerThreads nConsumerThreads : ℕ}
    (h : BufferReaches nProducerThreads nConsumerThreads s) : BufferLaws s := by
  induction h with
  | refl =>
    refine ⟨?_, ?_, ?_, rfl, rfl⟩
    all_goals
      rw [number_initial _ _ (by decide), number_initial _ _ (by decide)]
      rfl
  | tail _ hstep ih => exact ih.step hstep

end Laws

end Comp30023.Interface
