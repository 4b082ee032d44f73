import Comp30023.Analysis.TheoremBoundedBuffer
import Comp30023.Interface.LockedBufferLaws

/-!
# The buffer behind a mutex

The program whose threads ask again and again is a queue of limited size too. It differs from the
one with semaphores in how it ends: nobody waits for anything but a mutex that another thread is
about to unlock, so once `is_exiting` is set, the threads return after a number of steps that only
depends on where they are.
-/

set_option autoImplicit false

namespace Comp30023.Analysis

open Comp30023.Library Comp30023.Model Comp30023.Interface

variable {s s' t : Threads LockedBuffer BusyWorker} {w w' : BusyWorker} {m m' : LockedBuffer}

/-! ## The queue -/

/-- INTERNAL: how many items there are. -/
theorem length_itemsIn (h : QueueLaws m) : ((itemsIn m).length : ℤ) = bufferSize - m.bufferSpace := by
  have hrange := h.range
  have hlength : (plainBuffer m).buffer.length = bufferSize := h.length
  rw [itemsIn, contents, List.length_take, hlength]
  dsimp only [plainBuffer]
  omega

/-- INTERNAL: a thread can take a step, has returned, or waits for the mutex. -/
theorem locked_progress (h : LockedLaws s) (w : BusyWorker) (rand : ℤ) :
    (∃ w' m, busyStep rand w s.shared = .ok (w', m)) ∨
      busyStep rand w s.shared = .error .ended ∧ w.point = .returned ∨
      busyStep rand w s.shared = .error .blocked ∧ w.point = .locks ∧
        s.shared.bufferLock = true := by
  obtain ⟨role, point, item⟩ := w
  cases point with
  | outside => cases role <;> exact Or.inl ⟨_, _, rfl⟩
  | tests success => cases success <;> exact Or.inl ⟨_, _, rfl⟩
  | locks =>
    cases hlock : s.shared.bufferLock with
    | true =>
      refine Or.inr (Or.inr ⟨?_, rfl, rfl⟩)
      simp only [busyStep, hlock, if_true]
    | false =>
      refine Or.inl ⟨⟨role, .inside, item⟩, { s.shared with bufferLock := true }, ?_⟩
      simp [busyStep, hlock]
  | inside =>
    cases role with
    | producer =>
      by_cases hspace : 0 < s.shared.bufferSpace
      · obtain ⟨m, hinsert, -⟩ := h.queue.insert item hspace
        refine Or.inl ⟨⟨.producer, .unlocks true, item⟩, m, ?_⟩
        simp [busyStep, bufferHasSpace, hspace, hinsert, bind, Except.bind]
      · refine Or.inl ⟨⟨.producer, .unlocks false, item⟩, s.shared, ?_⟩
        simp [busyStep, bufferHasSpace, hspace]
    | consumer =>
      by_cases hitem : s.shared.bufferSpace < bufferSize
      · obtain ⟨item', m, hremove, -⟩ := h.queue.remove hitem
        refine Or.inl ⟨⟨.consumer, .unlocks true, item'⟩, m, ?_⟩
        simp [busyStep, bufferHasItem, hitem, hremove, bind, Except.bind]
      · refine Or.inl ⟨⟨.consumer, .unlocks false, item⟩, s.shared, ?_⟩
        simp [busyStep, bufferHasItem, hitem]
  | unlocks success => exact Or.inl ⟨_, _, rfl⟩
  | rejected => exact Or.inl ⟨_, _, rfl⟩
  | returned => exact Or.inr (Or.inl ⟨rfl, rfl⟩)

/-- Every step of the program is a step of the queue, or none.
SOURCE: producer-consumer-problem.c:42-105 -/
theorem locked_refines_queue (h : LockedLaws s) (hstep : LockedStep s s') :
    itemsIn s'.shared = itemsIn s.shared ∨
      QueueStep bufferSize (itemsIn s.shared) (itemsIn s'.shared) := by
  have hcount := length_itemsIn h.queue
  cases hstep with
  | exit => exact Or.inl rfl
  | worker hturn =>
    obtain ⟨ht, hmove⟩ := hturn
    cases busyMove_of_steps hmove with
    | insert hspace hinsert =>
      rename_i item
      obtain ⟨m₁, hok, -, hitems, -⟩ := h.queue.insert item hspace
      obtain rfl := Except.ok.inj (hok.symm.trans hinsert)
      dsimp only
      rw [hitems]
      exact Or.inr (.put item (by omega))
    | remove hitem hremove =>
      obtain ⟨item, m₁, hok, -, hitems, -⟩ := h.queue.remove hitem
      obtain ⟨-, rfl⟩ := Prod.mk.inj (Except.ok.inj (hok.symm.trans hremove))
      dsimp only
      rw [hitems]
      exact Or.inr (.take item)
    | _ => exact Or.inl rfl

/-- The buffer is used as a queue, by one thread at a time: the space is between nothing and all of
the buffer, no thread accesses the buffer outside of its cells, no two threads are between their
calls for the mutex, and the items removed so far and those in the buffer are the items inserted so
far, in this order. -/
structure BusyFifo (s : Threads LockedBuffer BusyWorker) : Prop where
  range : 0 ≤ s.shared.bufferSpace ∧ s.shared.bufferSpace ≤ bufferSize
  indices : ∀ w ∈ s.threads, ∀ rand, busyStep rand w s.shared ≠ .error .indexOutOfRange
  alone : ∀ (i j : ℕ) (w v : BusyWorker), s.threads[i]? = some w → s.threads[j]? = some v →
    isInside w = 1 → isInside v = 1 → i = j
  fifo : s.shared.removed ++ itemsIn s.shared = s.shared.inserted

/-- INTERNAL: two threads that are inside count twice. -/
theorem two_le_total {i j : ℕ} {v : BusyWorker} {threads : List BusyWorker}
    (hw : threads[i]? = some w) (hv : threads[j]? = some v) (hwin : isInside w = 1)
    (hvin : isInside v = 1) (hij : i < j) : 2 ≤ total isInside threads := by
  induction threads generalizing i j with
  | nil => simp at hw
  | cons u threads ih =>
    have hnonneg := isInside_nonneg u
    obtain ⟨j, rfl⟩ := Nat.exists_eq_succ_of_ne_zero (Nat.ne_of_gt (Nat.zero_lt_of_lt hij))
    rw [List.getElem?_cons_succ] at hv
    cases i with
    | zero =>
      obtain rfl : u = w := by simpa using hw
      have hle := le_total isInside_nonneg (List.mem_of_getElem? hv)
      simp only [total, List.map_cons, List.sum_cons] at hle ⊢
      omega
    | succ i =>
      rw [List.getElem?_cons_succ] at hw
      have hrest := ih hw hv (Nat.lt_of_succ_lt_succ hij)
      simp only [total, List.map_cons, List.sum_cons] at hrest ⊢
      omega

/-- **The buffer behind the mutex is a queue.** For any number of producers and consumers, any
items and any order of their steps: in every state that is reached, the buffer is used as a queue
by one thread at a time, and every step from there is one of a queue of limited size or leaves the
items as they are.
SOURCE: producer-consumer-problem.c:32-105, 198-259 -/
theorem busy_buffer_is_fifo {nProducerThreads nConsumerThreads : ℕ}
    (h : LockedReaches nProducerThreads nConsumerThreads s) :
    BusyFifo s ∧ ∀ s', LockedStep s s' → itemsIn s'.shared = itemsIn s.shared ∨
      QueueStep bufferSize (itemsIn s.shared) (itemsIn s'.shared) := by
  have hlaws := LockedLaws.of_reaches h
  have hcount : total isInside s.threads ≤ 1 := by
    rw [← hlaws.lock, lockCount]
    split <;> decide
  refine ⟨⟨hlaws.queue.range, ?_, ?_, hlaws.queue.fifo⟩,
    fun s' hstep => locked_refines_queue hlaws hstep⟩
  · intro w hw rand hfault
    rcases locked_progress hlaws w rand with ⟨w', m, hok⟩ | ⟨hended, -⟩ | ⟨hblocked, -⟩
    · simp [hok] at hfault
    · simp [hended] at hfault
    · simp [hblocked] at hfault
  · intro i j w v hw hv hwin hvin
    rcases Nat.lt_trichotomy i j with hij | hij | hij
    · have htwo := two_le_total hw hv hwin hvin hij
      omega
    · exact hij
    · have htwo := two_le_total hv hw hvin hwin hij
      omega

/-- INTERNAL: a schedule of the threads is a run. -/
theorem lockedReaches_of_follow {nProducerThreads nConsumerThreads : ℕ} {schedule : List (ℕ × ℤ)}
    (h : (lockedInitial nProducerThreads nConsumerThreads).follow .ended busyStep schedule =
      .ok s) : LockedReaches nProducerThreads nConsumerThreads s :=
  (Threads.turns_of_follow h).lift id fun _ _ hturn => .worker hturn

/-- A producer inserts an item, and the consumer is inside to take it.
SOURCE: producer-consumer-problem.c:32-105, 198-259 -/
theorem busy_buffer_is_fifo_insertion :
    ∃ s, LockedReaches 1 1 s ∧ s.shared.inserted = [7] ∧ BusyFifo s := by
  have hrun : (lockedInitial 1 1).follow .ended busyStep
      [(0, 7), (0, 0), (0, 0), (1, 0), (1, 0), (0, 0), (0, 0), (1, 0)] = .ok _ := rfl
  exact ⟨_, lockedReaches_of_follow hrun, rfl, (busy_buffer_is_fifo (lockedReaches_of_follow hrun)).1⟩

/-! ## Shutting down -/

/-- How many steps a thread has still to take when `is_exiting` is set.
SOURCE: producer-consumer-problem.c:42-105, 198-259 -/
def stepsToReturn (w : BusyWorker) : ℕ :=
  match w.point with
  | .returned => 0
  | .rejected => 1
  | .tests false => 2
  | .outside => 3
  | .unlocks false => 3
  | .tests true => 4
  | .unlocks true => 5
  | .inside => 6
  | .locks => 7

/-- INTERNAL: every step leaves less to do once the flag is set.
SOURCE: producer-consumer-problem.c:42-105, 198-259 -/
theorem busyMove_lowers (h : BusyMove w m w' m') (hexiting : m.isExiting = true) :
    stepsToReturn w' < stepsToReturn w := by
  cases h with
  | attempt hrunning => simp [hrunning] at hexiting
  | retry hrunning => simp [hrunning] at hexiting
  | unlock =>
    rename_i role success item
    cases success <;> simp [stepsToReturn]
  | _ => simp [stepsToReturn]

/-- So many steps of the program. -/
inductive LockedRun (s : Threads LockedBuffer BusyWorker) :
    ℕ → Threads LockedBuffer BusyWorker → Prop
  | refl : LockedRun s 0 s
  | tail {t u : Threads LockedBuffer BusyWorker} {n : ℕ} (h : LockedRun s n t)
      (hstep : LockedStep t u) : LockedRun s (n + 1) u

/-- INTERNAL: a step after the flag was set. -/
theorem locked_lowers (h : LockedLaws s) (hexiting : s.shared.isExiting = true)
    (hstep : LockedStep s s') :
    s'.shared.isExiting = true ∧ total stepsToReturn s'.threads < total stepsToReturn s.threads := by
  cases hstep with
  | exit hrunning => simp [hrunning] at hexiting
  | worker hturn =>
    have hlowers : total stepsToReturn s'.threads < total stepsToReturn s.threads := by
      obtain ⟨ht, hmove⟩ := hturn
      rename_i i w w' m
      have hlocal := busyMove_lowers (busyMove_of_steps hmove) hexiting
      have htotal := total_set stepsToReturn w' ht
      dsimp only
      omega
    obtain ⟨ht, hmove⟩ := hturn
    refine ⟨?_, hlowers⟩
    rw [(busyMove_of_steps hmove).exiting h.queue, hexiting]

/-- INTERNAL: after the flag was set, every step counts. -/
theorem locked_run (h : LockedLaws s) (hexiting : s.shared.isExiting = true) {n : ℕ}
    (hrun : LockedRun s n t) :
    LockedLaws t ∧ t.shared.isExiting = true ∧
      total stepsToReturn t.threads + n ≤ total stepsToReturn s.threads := by
  induction hrun with
  | refl => exact ⟨h, hexiting, le_rfl⟩
  | tail hrun hstep ih =>
    obtain ⟨hlaws, hflag, hle⟩ := ih
    obtain ⟨hflag', hlt⟩ := locked_lowers hlaws hflag hstep
    exact ⟨hlaws.step hstep, hflag', by omega⟩

/-- The thread can take a step. -/
def CanStep (s : Threads LockedBuffer BusyWorker) (w : BusyWorker) : Prop :=
  ∃ rand w' m, busyStep rand w s.shared = .ok (w', m)

/-- INTERNAL: a thread that can take a step can take a turn. -/
theorem CanStep.turn (h : CanStep s w) (hw : w ∈ s.threads) : ∃ s', Turn BusySteps s s' := by
  obtain ⟨rand, w', m, hok⟩ := h
  obtain ⟨i, hi⟩ := List.getElem?_of_mem hw
  exact ⟨_, .take hi ⟨rand, hok⟩⟩

/-- INTERNAL: a thread that has not returned can take a step, or waits for one that can.
SOURCE: producer-consumer-problem.c:42-105, 198-259 -/
theorem canStep_or_waits (h : LockedLaws s) (hpoint : w.point ≠ .returned) :
    CanStep s w ∨ w.point = .locks ∧ ∃ v ∈ s.threads, isInside v = 1 ∧ CanStep s v := by
  rcases locked_progress h w 0 with ⟨w', m, hok⟩ | ⟨-, hreturned⟩ | ⟨-, hlocks, hlocked⟩
  · exact Or.inl ⟨0, w', m, hok⟩
  · exact absurd hreturned hpoint
  · -- the thread that holds the mutex can go on
    obtain ⟨v, hv, hinside⟩ := h.exists_inside hlocked
    have hone : isInside v = 1 := by
      unfold isInside at hinside ⊢
      split <;> simp_all
    refine Or.inr ⟨hlocks, v, hv, hone, ?_⟩
    rcases locked_progress h v 0 with ⟨v', m, hok⟩ | ⟨-, hreturned⟩ | ⟨-, hlocks', -⟩
    · exact ⟨0, v', m, hok⟩
    · simp [isInside, hreturned] at hinside
    · simp [isInside, hlocks'] at hinside

/-- INTERNAL: while a thread has not returned, some thread can take a turn. -/
theorem exists_turn (h : LockedLaws s) (hw : w ∈ s.threads) (hpoint : w.point ≠ .returned) :
    ∃ s', Turn BusySteps s s' := by
  rcases canStep_or_waits h hpoint with hstep | ⟨-, v, hv, -, hstep⟩
  · exact hstep.turn hw
  · exact hstep.turn hv

/-- INTERNAL: no thread returns before the flag is set.
SOURCE: producer-consumer-problem.c:42-105, 198-259 -/
theorem exiting_of_returned {nProducerThreads nConsumerThreads : ℕ}
    (h : LockedReaches nProducerThreads nConsumerThreads s) (hw : w ∈ s.threads)
    (hpoint : w.point = .returned) : s.shared.isExiting = true := by
  induction h generalizing w with
  | refl =>
    simp only [lockedInitial, List.mem_append, List.mem_replicate] at hw
    rcases hw with ⟨-, rfl⟩ | ⟨-, rfl⟩ <;> cases hpoint
  | tail hreach hstep ih =>
    have hlaws := LockedLaws.of_reaches hreach
    cases hstep with
    | exit => rfl
    | worker hturn =>
      obtain ⟨ht, hmove⟩ := hturn
      have hmove := busyMove_of_steps hmove
      rcases List.mem_or_eq_of_mem_set hw with hold | rfl
      · rw [hmove.exiting hlaws.queue]
        exact ih hold hpoint
      · cases hmove with
        | «end» hexiting => exact hexiting
        | _ => cases hpoint

/-- INTERNAL: nobody has more to do than one who waits for the mutex. -/
theorem stepsToReturn_le (w : BusyWorker) : stepsToReturn w ≤ 7 := by
  unfold stepsToReturn
  split <;> decide

/-- INTERNAL: all threads together. -/
theorem total_stepsToReturn_le (threads : List BusyWorker) :
    total stepsToReturn threads ≤ 7 * threads.length := by
  induction threads with
  | nil => simp [total]
  | cons w threads ih =>
    have hw := stepsToReturn_le w
    simp only [total, List.map_cons, List.sum_cons, List.length_cons] at ih ⊢
    omega

/-- INTERNAL: no thread comes or goes. -/
theorem length_of_reaches {nProducerThreads nConsumerThreads : ℕ}
    (h : LockedReaches nProducerThreads nConsumerThreads s) :
    s.threads.length = nProducerThreads + nConsumerThreads := by
  induction h with
  | refl => simp [lockedInitial]
  | tail _ hstep ih =>
    cases hstep with
    | exit => exact ih
    | worker hturn =>
      obtain ⟨ht, -⟩ := hturn
      simpa using ih

/-- **Shutting down always ends.** Before `is_exiting` is set, no thread has returned. In every state
that is reached, a thread that has not returned can take a step, or it waits for the mutex and the
thread between its calls for the mutex can take one. Once `is_exiting` is set, whatever the threads
do in whatever order, they take at most seven steps for each thread, and they can only stop when all
of them have returned, so that `main` has waited for them.
SOURCE: producer-consumer-problem.c:42-105, 172-191, 198-259 -/
theorem busy_shutdown_completes {nProducerThreads nConsumerThreads : ℕ}
    (h : LockedReaches nProducerThreads nConsumerThreads s) :
    (s.shared.isExiting = false → ∀ w ∈ s.threads, w.point ≠ .returned) ∧
      (∀ w ∈ s.threads, w.point ≠ .returned →
        CanStep s w ∨ w.point = .locks ∧ ∃ v ∈ s.threads, isInside v = 1 ∧ CanStep s v) ∧
      (s.shared.isExiting = true → ∀ n t, LockedRun s n t →
        n ≤ 7 * (nProducerThreads + nConsumerThreads) ∧
        ((¬ ∃ u, LockedStep t u) ↔ ∀ w ∈ t.threads, w.point = .returned)) := by
  have hlaws := LockedLaws.of_reaches h
  refine ⟨fun hrunning w hw hpoint => ?_, fun w _ hpoint => canStep_or_waits hlaws hpoint,
    fun hexiting n t hrun => ?_⟩
  · rw [exiting_of_returned h hw hpoint] at hrunning
    cases hrunning
  obtain ⟨hlaws', hflag, hle⟩ := locked_run hlaws hexiting hrun
  have hmost := total_stepsToReturn_le s.threads
  rw [length_of_reaches h] at hmost
  refine ⟨by omega, ?_⟩
  constructor
  · intro hstuck w hw
    by_contra hpoint
    obtain ⟨u, hturn⟩ := exists_turn hlaws' hw hpoint
    exact hstuck ⟨u, .worker hturn⟩
  · rintro hreturned ⟨u, hstep⟩
    cases hstep with
    | exit hrunning => simp [hrunning] at hflag
    | worker hturn =>
      obtain ⟨ht, rand, hmove⟩ := hturn
      rename_i i w w' m
      have hpoint := hreturned w (List.mem_of_getElem? ht)
      obtain ⟨role, point, item⟩ := w
      dsimp only at hpoint
      subst hpoint
      cases hmove

/-- The flag is set while the only consumer, which has found no item, is about to unlock the mutex.
SOURCE: producer-consumer-problem.c:42-105, 172-191, 198-259 -/
theorem busy_shutdown_completes_empty :
    ∃ s, LockedReaches 0 1 s ∧ s.shared.isExiting = true ∧
      s.threads = [⟨.consumer, .unlocks false, 0⟩] ∧ ∀ n t, LockedRun s n t → n ≤ 7 := by
  have hrun : (lockedInitial 0 1).follow .ended busyStep [(0, 0), (0, 0), (0, 0), (0, 0)] =
      .ok _ := rfl
  have hreach := (lockedReaches_of_follow hrun).tail (.exit rfl)
  exact ⟨_, hreach, rfl, rfl, fun n t hsteps =>
    ((busy_shutdown_completes hreach).2.2 rfl n t hsteps).1⟩

end Comp30023.Analysis
