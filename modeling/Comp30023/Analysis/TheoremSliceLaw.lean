import Mathlib.Algebra.BigOperators.Fin
import Mathlib.Algebra.Order.Floor.Div
import Comp30023.Library.Slices
import Comp30023.Interface.TraceLog
import Comp30023.Analysis.TheoremNoEviction

/-!
# What one process gets of the feedback queue

`burst_time`, `cpu_time` and `priority` of a process change in four functions, and between them
other processes come and go. Seen from one process nothing of this matters: its history is the
times at which it was dispatched and the time steps in which it ran, and at every moment these are
slices of the lengths of the levels, one after the other, with the fields of the process at the
place where the slices have come to (`SlicesKept`). It is finished within its last slice, so the
number of its dispatches depends on its job time only.
-/

set_option autoImplicit false

namespace Comp30023.Analysis

open Comp30023.Library Comp30023.Model Comp30023.Interface

/-- When a process was dispatched, by the history of the scheduler. -/
def startsOf (history : List Action) (proc : ℕ) : List ℤ :=
  (dispatches history).filterMap fun x => if x.2 = proc then some x.1 else none

/-- In which time steps a process was on the CPU, by the record of all of them. -/
def timesOf (record : List (ℕ × ℤ)) (proc : ℕ) : List ℤ :=
  record.filterMap fun x => if x.1 = proc then some x.2 else none

/-- In which time steps a process was on the CPU, by the history of the scheduler. -/
def runsOf (history : List Action) (proc : ℕ) : List ℤ := timesOf (executed history) proc

/-! ## A process in its slices -/

section Slices

/-- A process that waits for its next slice. -/
structure Ready (quantum : ℕ → ℕ) (starts runs : List ℤ) (e : Task) : Prop where
  level : e.level = min starts.length 2
  cpu : e.cpu = slicedBefore quantum starts.length
  times : runs = sliceTimes quantum (slicedBefore quantum starts.length) starts

/-- A process that has been in its last slice for `k` time steps. -/
structure Working (quantum : ℕ → ℕ) (starts runs : List ℤ) (earlier : List ℤ) (start : ℤ) (k : ℕ)
    (r : Task) : Prop where
  split : starts = earlier ++ [start]
  level : r.level = min earlier.length 2
  burst : r.burst = k
  cpu : r.cpu = slicedBefore quantum earlier.length + k
  times : runs = sliceTimes quantum (slicedBefore quantum earlier.length + k) starts

/-- A process that has had all of its time, the last of it in its last slice. -/
def FinishedInSlice (quantum : ℕ → ℕ) (starts runs : List ℤ) (e : Task) : Prop :=
  ∃ earlier start k, k ≠ 0 ∧ k ≤ quantum earlier.length ∧
    Working quantum starts runs earlier start k e

variable {quantum : ℕ → ℕ} {starts runs earlier : List ℤ} {start : ℤ} {k : ℕ} {r : Task}

/-- INTERNAL: a process that has never run. -/
theorem ready_new (quantum : ℕ → ℕ) (proc : ℕ) : Ready quantum [] [] ⟨proc, 0, 0, 0⟩ :=
  ⟨rfl, rfl, rfl⟩

/-- INTERNAL: a slice begins.
SOURCE: process-scheduler.c:182-200 -/
theorem Ready.dispatched (h : Ready quantum starts runs r) (time : ℤ) :
    Working quantum (starts ++ [time]) runs starts time 0 { r with burst := 0 } :=
  ⟨rfl, h.level, rfl, h.cpu.trans (add_zero _).symm,
    h.times.trans (sliceTimes_begin starts time).symm⟩

/-- INTERNAL: one time step of a slice.
SOURCE: process-scheduler.c:202-209 -/
theorem Working.ran (h : Working quantum starts runs earlier start k r)
    (hk : k < quantum earlier.length) :
    Working quantum starts (runs ++ [start + (k : ℤ)]) earlier start (k + 1) r.ran := by
  refine ⟨h.split, h.level, ?_, ?_, ?_⟩
  · simp [Task.ran, h.burst]
  · simp only [Task.ran, h.cpu]
    push_cast
    ring
  · rw [h.times, h.split, sliceTimes_succ hk]

/-- INTERNAL: a slice is used up.
SOURCE: process-scheduler.c:211-222 -/
theorem Working.requeued (h : Working quantum starts runs earlier start k r)
    (hk : k = quantum earlier.length) :
    Ready quantum starts runs { r with level := min (r.level + 1) 2, burst := 0 } := by
  have hlength : starts.length = earlier.length + 1 := by
    rw [h.split, List.length_append]
    rfl
  have hdone : slicedBefore quantum starts.length = slicedBefore quantum earlier.length + k := by
    rw [hlength, hk]
    rfl
  refine ⟨?_, ?_, ?_⟩
  · simp only [h.level, hlength]
    omega
  · rw [hdone, h.cpu]
    push_cast
    rfl
  · rw [hdone]
    exact h.times

end Slices

/-! ## One step of the scheduler -/

/-- Every process is in its slices, wherever it is. -/
structure SlicesKept (quantum : ℕ → ℕ) (a : Tick) : Prop where
  fresh : ∀ proc, a.admitted ≤ proc → startsOf a.history proc = [] ∧ runsOf a.history proc = []
  ready : ∀ e ∈ a.queues.flatten,
    Ready quantum (startsOf a.history e.proc) (runsOf a.history e.proc) e
  running : ∀ r, a.running = some r → ∃ earlier start k, k < quantum earlier.length ∧
    a.time = start + (k : ℤ) ∧
    Working quantum (startsOf a.history r.proc) (runsOf a.history r.proc) earlier start k r
  finished : ∀ e ∈ a.terminated,
    FinishedInSlice quantum (startsOf a.history e.proc) (runsOf a.history e.proc) e

variable {P : Policy} {sps : List ScheduledProcess} {a b : Tick} {quantum : ℕ → ℕ}

/-- INTERNAL: a process enters the first level.
SOURCE: process-scheduler.c:268-294 -/
theorem SlicesKept.admitOne (h : SlicesKept quantum a) (hqueues : 0 < a.queues.length) :
    SlicesKept quantum a.admitOne := by
  have hstarts : ∀ proc, startsOf a.admitOne.history proc = startsOf a.history proc := by
    intro proc
    simp [startsOf, dispatches, Tick.admitOne]
  have hruns : ∀ proc, runsOf a.admitOne.history proc = runsOf a.history proc := by
    intro proc
    simp [runsOf, executed, Tick.admitOne]
  constructor
  · intro proc hproc
    rw [hstarts, hruns]
    exact h.fresh proc (Nat.le_of_succ_le hproc)
  · intro e he
    rw [hstarts, hruns]
    rcases List.mem_cons.mp ((pushAt_perm hqueues _).mem_iff.mp he) with rfl | hold
    · obtain ⟨hnone, hnone'⟩ := h.fresh a.admitted (Nat.le_refl _)
      rw [hnone, hnone']
      exact ready_new quantum a.admitted
    · exact h.ready e hold
  · intro r hr
    rw [hstarts, hruns]
    exact h.running r hr
  · intro e he
    rw [hstarts, hruns]
    exact h.finished e he

/-- INTERNAL: a dispatch adds its time to the record of its process, and nothing else. -/
theorem startsOf_take (a : Tick) (e : Task) (queues : List (List Task)) (proc : ℕ) :
    startsOf (a.take e queues).history proc =
      if e.proc = proc then startsOf a.history proc ++ [a.time] else startsOf a.history proc := by
  unfold startsOf dispatches Tick.take
  rw [List.filterMap_append, List.filterMap_append]
  split_ifs with heq <;> simp [heq]

/-- INTERNAL: a process is dispatched.
SOURCE: process-scheduler.c:486-499 -/
theorem SlicesKept.take (h : SlicesKept quantum a) (hplaced : a.Placed P)
    (hquantum : ∀ i, 0 < quantum i) (hidle : a.running = none) {e : Task}
    {queues : List (List Task)} (hpop : popFirst a.queues = some (e, queues)) :
    SlicesKept quantum (a.take e queues) := by
  have hmem : e ∈ a.queues.flatten := (popFirst_perm hpop).mem_iff.mpr List.mem_cons_self
  have hruns : ∀ proc, runsOf (a.take e queues).history proc = runsOf a.history proc := by
    intro proc
    simp [runsOf, executed, Tick.take]
  have hother : ∀ proc, e.proc ≠ proc →
      startsOf (a.take e queues).history proc = startsOf a.history proc := by
    intro proc hne
    rw [startsOf_take, if_neg hne]
  constructor
  · intro proc hproc
    have hlt := hplaced.popped_lt hpop
    rw [hruns, hother proc (Nat.ne_of_lt (Nat.lt_of_lt_of_le hlt hproc))]
    exact h.fresh proc hproc
  · intro t ht
    have hne : e.proc ≠ t.proc := by
      intro heq
      have hnot := (hplaced.take hidle hpop).running_notMem (r := { e with burst := 0 }) rfl
      exact hnot (heq ▸ (a.take e queues).mem_chains_of_queued ht)
    rw [hruns, hother t.proc hne]
    exact h.ready t ((popFirst_perm hpop).mem_iff.mpr (List.mem_cons_of_mem e ht))
  · rintro r ⟨rfl⟩
    refine ⟨startsOf a.history e.proc, a.time, 0, hquantum _, (add_zero a.time).symm, ?_⟩
    rw [hruns, startsOf_take, if_pos rfl]
    exact (h.ready e hmem).dispatched a.time
  · intro t ht
    rw [hruns, hother t.proc (hplaced.popped_ne hpop t ht).symm]
    exact h.finished t ht

/-- INTERNAL: what a time step on the CPU adds to the records, whatever follows it. -/
theorem records_ran {r : Task} {rest : List Action}
    (hhistory : b.history = a.history ++ [.run r.proc a.time] ++ rest)
    (hrest : rest = [] ∨ rest = [.terminate r.proc] ∨ rest = [.decreasePriority r.proc]) :
    (∀ proc, startsOf b.history proc = startsOf a.history proc) ∧
      runsOf b.history r.proc = runsOf a.history r.proc ++ [a.time] ∧
      ∀ proc, r.proc ≠ proc → runsOf b.history proc = runsOf a.history proc := by
  rw [hhistory]
  refine ⟨?_, ?_, ?_⟩
  · intro proc
    rcases hrest with rfl | rfl | rfl <;> simp [startsOf, dispatches]
  · rcases hrest with rfl | rfl | rfl <;> simp [runsOf, timesOf, executed]
  · intro proc hne
    rcases hrest with rfl | rfl | rfl <;> simp [runsOf, timesOf, executed, hne]

/-- INTERNAL: a time step on the CPU, for the process that has it and for the others.
SOURCE: process-scheduler.c:509-517 -/
theorem SlicesKept.work (h : SlicesKept quantum a) (hplaced : a.Placed P) {r : Task}
    (hr : a.running = some r) {rest : List Action}
    (hhistory : b.history = a.history ++ [Action.run r.proc a.time] ++ rest)
    (hrest : rest = [] ∨ rest = [.terminate r.proc] ∨ rest = [.decreasePriority r.proc]) :
    (∃ (earlier : List ℤ) (start : ℤ) (k : ℕ), k < quantum earlier.length ∧ a.time = start + (k : ℤ) ∧
      Working quantum (startsOf b.history r.proc) (runsOf b.history r.proc) earlier start (k + 1)
        r.ran) ∧
    (∀ proc, a.admitted ≤ proc → startsOf b.history proc = [] ∧ runsOf b.history proc = []) ∧
    (∀ e ∈ a.queues.flatten,
      Ready quantum (startsOf b.history e.proc) (runsOf b.history e.proc) e) ∧
    ∀ e ∈ a.terminated,
      FinishedInSlice quantum (startsOf b.history e.proc) (runsOf b.history e.proc) e := by
  obtain ⟨hstarts, hruns, hothers⟩ := records_ran hhistory hrest
  have hnot := hplaced.running_notMem hr
  refine ⟨?_, ?_, ?_, ?_⟩
  · obtain ⟨earlier, start, k, hk, htime, hworking⟩ := h.running r hr
    refine ⟨earlier, start, k, hk, htime, ?_⟩
    rw [hstarts, hruns, htime]
    exact hworking.ran hk
  · intro proc hproc
    have hne : r.proc ≠ proc := (Nat.lt_of_lt_of_le (hplaced.running_lt hr) hproc).ne
    rw [hstarts, hothers proc hne]
    exact h.fresh proc hproc
  · intro e he
    have hne : r.proc ≠ e.proc := by
      intro heq
      exact hnot (heq ▸ Tick.mem_chains_of_queued he)
    rw [hstarts, hothers e.proc hne]
    exact h.ready e he
  · intro e he
    have hne : r.proc ≠ e.proc := by
      intro heq
      exact hnot (heq ▸ Tick.mem_chains_of_terminated he)
    rw [hstarts, hothers e.proc hne]
    exact h.finished e he

section Multi

variable {q : Quanta} {r : Task} {starts runs earlier : List ℤ} {start : ℤ} {k : ℕ}

/-- INTERNAL: a quantum is used up exactly at the end of a slice.
SOURCE: process-scheduler.c:320-342 -/
theorem Working.exhausted_iff (hq : ∀ i, levelQuantum q (min i 2) = quantum i)
    (h : Working quantum starts runs earlier start (k + 1) r.ran) :
    (multiPolicy q).exhausted r.level (r.burst + 1) = true ↔ quantum earlier.length ≤ k + 1 := by
  have hlevel : r.level = min earlier.length 2 := h.level
  have hburst : r.burst + 1 = (k + 1 : ℕ) := h.burst
  rw [hlevel, hburst]
  simp only [multiPolicy, decide_eq_true_eq, hq, Int.ofNat_le]

/-- INTERNAL: a process is finished in its last slice.
SOURCE: process-scheduler.c:523-528 -/
theorem SlicesKept.terminate (h : SlicesKept quantum a) (hplaced : a.Placed P)
    (hr : a.running = some r) : SlicesKept quantum (a.execute.terminate r.ran) := by
  obtain ⟨⟨earlier, start, k, hk, -, hworking⟩, hfresh, hready, hfinished⟩ :=
    h.work hplaced hr (Tick.terminate_history hr) (Or.inr (Or.inl rfl))
  refine ⟨?_, ?_, ?_, ?_⟩
  · intro proc hproc
    exact hfresh proc (by simpa [Tick.terminate] using hproc)
  · intro e he
    exact hready e (by simpa [Tick.terminate] using he)
  · intro r' hr'
    cases hr'
  · intro e he
    simp only [Tick.terminate, Tick.execute_terminated] at he
    rcases List.mem_append.mp he with hold | hnew
    · exact hfinished e hold
    · rw [List.mem_singleton.mp hnew]
      exact ⟨earlier, start, k + 1, Nat.succ_ne_zero k, hk, hworking⟩

/-- INTERNAL: a slice is used up, and the process waits for the next one, a level lower.
SOURCE: process-scheduler.c:529-538 -/
theorem SlicesKept.requeue (hq : ∀ i, levelQuantum q (min i 2) = quantum i)
    (h : SlicesKept quantum a) (hplaced : a.Placed (multiPolicy q)) (hr : a.running = some r)
    (hover : (multiPolicy q).exhausted r.level (r.burst + 1) = true) :
    SlicesKept quantum (a.execute.requeue (multiPolicy q) r.ran) := by
  obtain ⟨⟨earlier, start, k, hk, -, hworking⟩, hfresh, hready, hfinished⟩ :=
    h.work hplaced hr (Tick.requeue_history hr) (Or.inr (Or.inr rfl))
  have hfull : k + 1 = quantum earlier.length :=
    Nat.le_antisymm hk ((hworking.exhausted_iff hq).mp hover)
  refine ⟨?_, ?_, ?_, ?_⟩
  · intro proc hproc
    exact hfresh proc (by simpa [Tick.requeue] using hproc)
  · intro e he
    have hlt : min (r.level + 1) (minPriority - 1) < a.queues.length := by
      have hpos : 0 < minPriority := by decide
      rw [hplaced.levels]
      show min (r.level + 1) (minPriority - 1) < minPriority
      omega
    simp only [Tick.requeue, Tick.execute_queues] at he
    rcases List.mem_cons.mp ((pushAt_perm hlt _).mem_iff.mp he) with rfl | hold
    · exact hworking.requeued hfull
    · exact hready e hold
  · intro r' hr'
    cases hr'
  · intro e he
    exact hfinished e (by simpa [Tick.requeue] using he)

/-- INTERNAL: a slice goes on. -/
theorem SlicesKept.keep (hq : ∀ i, levelQuantum q (min i 2) = quantum i)
    (h : SlicesKept quantum a) (hplaced : a.Placed P) (hr : a.running = some r)
    (hover : (multiPolicy q).exhausted r.level (r.burst + 1) = false) :
    SlicesKept quantum a.execute := by
  obtain ⟨⟨earlier, start, k, hk, htime, hworking⟩, hfresh, hready, hfinished⟩ :=
    h.work hplaced hr ((Tick.execute_history hr).trans (List.append_nil _).symm) (Or.inl rfl)
  have hmore : k + 1 < quantum earlier.length := by
    by_contra hge
    have hexhausted := (hworking.exhausted_iff hq).mpr (Nat.le_of_not_lt hge)
    exact Bool.false_ne_true (hover.symm.trans hexhausted)
  refine ⟨?_, ?_, ?_, ?_⟩
  · intro proc hproc
    exact hfresh proc (by simpa using hproc)
  · intro e he
    exact hready e (by simpa using he)
  · intro r' hr'
    rw [Tick.execute_running hr, Option.some.injEq] at hr'
    subst hr'
    refine ⟨earlier, start, k + 1, hmore, ?_, hworking⟩
    rw [Tick.execute_time, htime]
    push_cast
    ring
  · intro e he
    exact hfinished e (by simpa using he)

/-- The slices are kept by every step of the feedback queue.
SOURCE: process-scheduler.c:479-540 -/
theorem SlicesKept.step (hq : ∀ i, levelQuantum q (min i 2) = quantum i)
    (hquantum : ∀ i, 0 < quantum i) (hstep : Step (multiPolicy q) sps a b)
    (h : SlicesKept quantum a) (hplaced : a.Placed (multiPolicy q)) : SlicesKept quantum b := by
  have hlevels : 0 < a.queues.length := by
    rw [hplaced.levels]
    exact show 0 < minPriority by decide
  cases hstep with
  | arrive => exact h.admitOne hlevels
  | dispatch _ hidle hpop => exact h.take hplaced hquantum hidle hpop
  | terminate hr => exact h.terminate hplaced hr
  | requeue hr _ hover => exact h.requeue hq hplaced hr hover
  | keep hr _ hover => exact h.keep hq hplaced hr hover
  | idle _ _ hidle =>
    rw [Tick.execute_idle hidle]
    refine ⟨h.fresh, h.ready, ?_, h.finished⟩
    intro r hr
    cases hidle.symm.trans hr

end Multi

theorem slicesKept_of_reached {q : Quanta} (hq : ∀ i, levelQuantum q (min i 2) = quantum i)
    (hquantum : ∀ i, 0 < quantum i) (h : Reached (multiPolicy q) sps a) :
    SlicesKept quantum a := by
  induction h with
  | refl => exact ⟨fun _ _ => ⟨rfl, rfl⟩, by simp [Tick.initial], by simp [Tick.initial],
      by simp [Tick.initial]⟩
  | tail hab hstep ih =>
    have ha : Reached (multiPolicy q) sps _ := hab
    exact ih.step hq hquantum hstep (ha.placed (show 0 < minPriority by decide))

/-! ## How many slices a job has -/

/-- How long the slices of the feedback queue are: two, four, and then eight time steps each.
SOURCE: process-scheduler.h:11-13, process-scheduler.c:320-336 -/
def multiSlice : ℕ → ℕ
  | 0 => 2
  | 1 => 4
  | _ => 8

/-- How often a job of this size is dispatched: once up to two time steps, twice up to six, and
then once more for every eight, rounded up. -/
def slicesCount (size : ℕ) : ℕ :=
  if size ≤ 2 then 1 else if size ≤ 6 then 2 else 2 + (size - 6) ⌈/⌉ 8

/-- INTERNAL: these are the quanta of the levels a process comes through. -/
theorem levelQuantum_default (i : ℕ) : levelQuantum defaultQuanta (min i 2) = multiSlice i := by
  match i with
  | 0 => rfl
  | 1 => rfl
  | i + 2 =>
    have hlowest : min (i + 2) 2 = 2 := by omega
    rw [hlowest]
    rfl

theorem multiSlice_pos (i : ℕ) : 0 < multiSlice i := by
  match i with
  | 0 => exact Nat.succ_pos _
  | 1 => exact Nat.succ_pos _
  | i + 2 => exact Nat.succ_pos _

theorem slicedBefore_multiSlice (i : ℕ) : slicedBefore multiSlice (i + 2) = 6 + 8 * i := by
  induction i with
  | zero => rfl
  | succ i ih =>
    show slicedBefore multiSlice (i + 2) + 8 = 6 + 8 * (i + 1)
    omega

/-- INTERNAL: a job that is finished in the slice after `i` others, which may be used up then. -/
theorem slicesCount_eq {i k : ℕ} (hpos : k ≠ 0) (hle : k ≤ multiSlice i) :
    slicesCount (slicedBefore multiSlice i + k) = i + 1 := by
  unfold slicesCount
  rw [Nat.ceilDiv_eq_add_pred_div]
  match i, hle with
  | 0, hle =>
    have hle' : k ≤ 2 := hle
    rw [show slicedBefore multiSlice 0 = 0 from rfl, if_pos (by omega)]
  | 1, hle =>
    have hle' : k ≤ 4 := hle
    rw [show slicedBefore multiSlice 1 = 2 from rfl, if_neg (by omega), if_pos (by omega)]
  | i + 2, hle =>
    have hle' : k ≤ 8 := hle
    rw [slicedBefore_multiSlice, if_neg (by omega), if_neg (by omega)]
    omega

/-! ## Reading it off a trace -/

variable {M : ℤ} {w : World}

/-- INTERNAL: the status lines of a process are its dispatches. -/
theorem dispatchTimes_eq_startsOf (h : World.Reached P sps M w) (proc : ℕ) :
    dispatchTimes w.trace proc = startsOf w.tick.history proc := by
  have hprinted : dispatchTimes w.trace proc =
      (statuses w.trace).filterMap fun x => if x.2.1 = proc then some x.1 else none := by
    unfold dispatchTimes statuses
    rw [List.filterMap_filterMap]
    congr 1
    funext event
    cases event <;> rfl
  rw [hprinted, statuses_of_reached h, List.filterMap_map]
  rfl

/-- INTERNAL: the time steps on the CPU come one after the other.
SOURCE: process-scheduler.c:509-517 -/
theorem executed_increasing (h : Reached P sps a) :
    (executed a.history).Pairwise (fun x y => x.2 < y.2) ∧
      ∀ x ∈ executed a.history, x.2 < a.time := by
  induction h with
  | refl => exact ⟨List.Pairwise.nil, by simp [Tick.initial, executed]⟩
  | tail _ hstep ih =>
    obtain ⟨hpairwise, hbefore⟩ := ih
    rcases hstep.executed_cases with ⟨htime, hsame⟩ | ⟨htime, r, -, hnew⟩ | ⟨htime, -, hsame⟩
    · rw [hsame, htime]
      exact ⟨hpairwise, hbefore⟩
    · rw [hnew, htime]
      refine ⟨?_, ?_⟩
      · rw [List.pairwise_append]
        refine ⟨hpairwise, List.pairwise_singleton _ _, ?_⟩
        intro x hx y hy
        rw [List.mem_singleton.mp hy]
        exact hbefore x hx
      · intro x hx
        rcases List.mem_append.mp hx with hold | hlast
        · exact (hbefore x hold).trans (lt_add_one _)
        · rw [List.mem_singleton.mp hlast]
          exact lt_add_one _
    · rw [hsame, htime]
      refine ⟨hpairwise, ?_⟩
      intro x hx
      exact (hbefore x hx).trans (lt_add_one _)

/-! ## Completed runs -/

/-- INTERNAL: a process at the end of a run.
SOURCE: process-scheduler.c:479-540 -/
theorem slices_of_done {n : ℕ} (h : tickRun (multiPolicy defaultQuanta) sps n = .ok (.done a))
    {proc : ℕ} (hproc : proc < sps.length) :
    (startsOf a.history proc).length = slicesCount (demand sps proc).toNat ∧
      runsOf a.history proc =
        sliceTimes multiSlice (demand sps proc).toNat (startsOf a.history proc) := by
  have hlevels : 0 < minPriority := by decide
  have hreached : Reached (multiPolicy defaultQuanta) sps a := tickRun_reached h
  have hkept := slicesKept_of_reached levelQuantum_default multiSlice_pos hreached
  have hmem : proc ∈ a.terminated.map Task.proc :=
    (tickRun_done h hlevels).2.2.2.mem_iff.mpr (List.mem_range.mpr hproc)
  obtain ⟨e, he, rfl⟩ := List.mem_map.mp hmem
  obtain ⟨earlier, start, k, hpos, hle, hworking⟩ := hkept.finished e he
  have hsize : (demand sps e.proc).toNat = slicedBefore multiSlice earlier.length + k := by
    rw [← (hreached.paced hlevels).finished e he, hworking.cpu]
    omega
  rw [hsize]
  refine ⟨?_, hworking.times⟩
  rw [slicesCount_eq hpos hle, hworking.split, List.length_append]
  rfl

/-- INTERNAL: the dispatches of a history, process by process. -/
theorem length_dispatches {n : ℕ} {history : List Action}
    (h : ∀ proc, n ≤ proc → startsOf history proc = []) :
    (dispatches history).length = ∑ proc ∈ Finset.range n, (startsOf history proc).length := by
  have hcount : ∀ proc, (startsOf history proc).length =
      ((dispatches history).map Prod.snd : Multiset ℕ).count proc := by
    intro proc
    unfold startsOf
    rw [List.length_filterMap_eq_countP, Multiset.coe_count, List.count, List.countP_map]
    apply List.countP_congr
    intro x _
    by_cases hx : x.2 = proc <;> simp [hx]
  have hbelow : ∀ proc ∈ ((dispatches history).map Prod.snd : Multiset ℕ),
      proc ∈ Finset.range n := by
    intro proc hproc
    rw [Finset.mem_range]
    by_contra hge
    have hzero := hcount proc
    rw [h proc (Nat.le_of_not_lt hge), List.length_nil] at hzero
    exact Multiset.count_ne_zero.mpr hproc hzero.symm
  have hsum := Multiset.sum_count_eq_card hbelow
  rw [Multiset.coe_card, List.length_map] at hsum
  rw [← hsum]
  apply Finset.sum_congr rfl
  intro proc _
  exact (hcount proc).symm

/-- **The slice law of the feedback queue.** For every file whose processes fit, the run ends, and
in it every process gets one status line for each of its slices and no other, as many as its job
time asks for; it runs in the time steps right after each of these, for two, four and then eight
time steps and in the last slice for the rest, whatever the other processes do. No two processes
run in the same time step, and the status lines are those of the processes together.
SOURCE: process-scheduler.c:182-247, 320-342, 479-540 -/
theorem multi_slice_law (sps : List ScheduledProcess) (memsize : ℤ)
    (hfit : ∀ sp ∈ sps, 1 ≤ sp.memorySize ∧ sp.memorySize ≤ memsize) :
    ∃ s, Exits (multiSchedulerPass defaultQuanta sps memsize) (multiInitialState memsize) s ∧
      (∀ proc sp, sps[proc]? = some sp →
        (dispatchTimes s.trace proc).length = slicesCount (max 1 sp.jobTime).toNat ∧
        timesOf (runTimes s.trace) proc =
          sliceTimes multiSlice (max 1 sp.jobTime).toNat (dispatchTimes s.trace proc)) ∧
      ((runTimes s.trace).map Prod.snd).Nodup ∧
      (statusLines s.trace).length =
        (sps.map fun sp => slicesCount (max 1 sp.jobTime).toNat).sum := by
  have hlevels : 0 < minPriority := by decide
  obtain ⟨s, a, n, hexits, hdone, -, hw⟩ :=
    exits_of_fit (multi_runs defaultQuanta sps memsize) hlevels hfit
  have hreached : Reached (multiPolicy defaultQuanta) sps a := tickRun_reached hdone
  have hstarts : ∀ proc, dispatchTimes s.trace proc = startsOf a.history proc :=
    dispatchTimes_eq_startsOf hw
  have hruns : runTimes s.trace = executed a.history := runTimes_of_reached hw
  refine ⟨s, hexits, ?_, ?_, ?_⟩
  · intro proc sp hsp
    obtain ⟨hcount, htimes⟩ := slices_of_done hdone (List.getElem?_eq_some_iff.mp hsp).1
    rw [demand_eq hsp] at hcount htimes
    rw [hstarts, hruns]
    exact ⟨hcount, htimes⟩
  · rw [hruns, List.Nodup, List.pairwise_map]
    apply (executed_increasing hreached).1.imp
    intro x y hlt
    exact hlt.ne
  · have hprinted : (statusLines s.trace).length = (dispatches a.history).length := by
      have hlines := congrArg List.length (statusLines_eq_statuses s.trace)
      rw [List.length_map, List.length_map] at hlines
      rw [hlines, show statuses s.trace = _ from statuses_of_reached hw, List.length_map]
    have hfresh : ∀ proc, sps.length ≤ proc → startsOf a.history proc = [] := by
      intro proc hproc
      have hkept := slicesKept_of_reached levelQuantum_default multiSlice_pos hreached
      exact (hkept.fresh proc ((tickRun_done hdone hlevels).2.2.1.trans_le hproc)).1
    rw [hprinted, length_dispatches hfresh, Finset.sum_range, ← Fin.sum_univ_fun_getElem]
    apply Finset.sum_congr rfl
    intro i _
    rw [(slices_of_done hdone i.isLt).1, demand_eq (List.getElem?_eq_getElem i.isLt)]

/-- Three processes, one of them with no job at all and one with a slice that its job just fills.
SOURCE: process-scheduler.c:439-556 -/
theorem multi_slice_law_three :
    ∃ s, Exits (multiSchedulerPass defaultQuanta
        [⟨0, 5, 60, 14⟩, ⟨1, 6, 60, 0⟩, ⟨14, 5, 100, 23⟩] 100) (multiInitialState 100) s ∧
      (dispatchTimes s.trace 0).length = 3 ∧ (dispatchTimes s.trace 1).length = 1 ∧
      (dispatchTimes s.trace 2).length = 5 ∧ (statusLines s.trace).length = 9 := by
  obtain ⟨s, hexits, hlaw, -, htotal⟩ := multi_slice_law
    [⟨0, 5, 60, 14⟩, ⟨1, 6, 60, 0⟩, ⟨14, 5, 100, 23⟩] 100 (by decide)
  refine ⟨s, hexits, ?_, ?_, ?_, ?_⟩
  · exact (hlaw 0 _ rfl).1.trans (by decide)
  · exact (hlaw 1 _ rfl).1.trans (by decide)
  · exact (hlaw 2 _ rfl).1.trans (by decide)
  · exact htotal.trans (by decide)

end Comp30023.Analysis
