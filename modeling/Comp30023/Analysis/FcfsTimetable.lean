import Comp30023.Interface.TraceLog

/-!
# The timetable of first come, first served

Under first come, first served the processes of the file take turns: each gets the CPU when
the one before it is done and it has itself become available, and keeps it until it is done.
`completion` is the recurrence this gives, and `Timetable` says that a scheduler keeps to it
in every state it comes through, also in the middle of a turn and while it waits.
-/

set_option autoImplicit false

namespace Comp30023.Analysis

open Comp30023.Library Comp30023.Model Comp30023.Interface

/-- When the first `i` processes of the file are done. -/
def completion (sps : List ScheduledProcess) : ℕ → ℤ
  | 0 => 0
  | i + 1 => max (completion sps i) (arrival sps i) + demand sps i

/-- When the process with the number `i` gets the CPU. -/
def turn (sps : List ScheduledProcess) (i : ℕ) : ℤ := max (completion sps i) (arrival sps i)

/-- A scheduler that has begun the turns of the first `d` processes, each on time. -/
structure Timetable (sps : List ScheduledProcess) (a : Tick) (d : ℕ) : Prop where
  begun : d ≤ a.admitted
  queue : a.queues = [(List.range' d (a.admitted - d)).map fun i => ⟨i, 0, 0, 0⟩]
  turns : dispatches a.history = (List.range d).map fun i => (turn sps i, i)
  working : ∀ r, a.running = some r → r.proc + 1 = d ∧ a.time = turn sps r.proc + r.cpu
  waiting : a.running = none → completion sps d ≤ a.time ∧
    (d < sps.length → a.time ≤ turn sps d) ∧ (sps.length ≤ d → a.time = completion sps d)

variable {sps : List ScheduledProcess} {a b : Tick} {d : ℕ}

theorem completion_succ (sps : List ScheduledProcess) (i : ℕ) :
    completion sps (i + 1) = turn sps i + demand sps i := rfl

theorem completion_le_turn (sps : List ScheduledProcess) (i : ℕ) :
    completion sps i ≤ turn sps i := le_max_left _ _

/-- INTERNAL: a process that has become available has waited for its arrival. -/
theorem arrival_le_time (ha : a.Paced sps) {i : ℕ} (hi : i < a.admitted) :
    arrival sps i ≤ a.time := by
  rw [arrival_le_iff]
  exact ⟨ha.time, fun j hj sp hsp => ha.due j (by omega) sp hsp⟩

/-- INTERNAL: a process that is not due yet has its turn later. -/
theorem time_lt_turn {sp : ScheduledProcess} (hsp : sps[d]? = some sp)
    (hwait : a.time < sp.startTime) : a.time < turn sps d := by
  by_contra hle
  have harrival : arrival sps d ≤ a.time := (le_max_right _ _).trans (not_lt.mp hle)
  have := (arrival_le_iff.mp harrival).2 d (le_refl d) sp hsp
  omega

/-! ## One case per step -/

/-- INTERNAL: a process that becomes available joins the end of the queue. -/
theorem Timetable.arrive (h : Timetable sps a d) : Timetable sps a.admitOne d := by
  refine ⟨h.begun.trans (Nat.le_succ _), ?_, ?_, h.working, h.waiting⟩
  · have hlen : a.admitted + 1 - d = a.admitted - d + 1 := by
      have := h.begun
      omega
    have hlast : d + (a.admitted - d) = a.admitted := Nat.add_sub_cancel' h.begun
    simp only [Tick.admitOne, h.queue, pushAt, List.modify_zero_cons, hlen, List.range'_concat,
      List.map_append, List.map_cons, List.map_nil, Nat.one_mul, hlast]
  · simpa [Tick.admitOne, dispatches] using h.turns

/-- INTERNAL: the next process gets the CPU exactly when it is its turn. -/
theorem Timetable.take (h : Timetable sps a d) (ha : a.Paced sps) (hidle : a.running = none)
    {e : Task} {queues : List (List Task)} (hpop : popFirst a.queues = some (e, queues)) :
    e.proc = d ∧ a.time = turn sps d ∧ Timetable sps (a.take e queues) (d + 1) := by
  obtain ⟨hdone, hturn, -⟩ := h.waiting hidle
  have hlt : d < a.admitted := by
    by_contra hge
    rw [h.queue, Nat.sub_eq_zero_of_le (not_lt.mp hge)] at hpop
    simp [popFirst] at hpop
  have htime : a.time = turn sps d :=
    le_antisymm (hturn (hlt.trans_le ha.bound)) (max_le hdone (arrival_le_time ha hlt))
  have hlen : a.admitted - d = a.admitted - (d + 1) + 1 := by omega
  rw [h.queue, hlen, List.range'_succ, List.map_cons, popFirst, Option.some.injEq,
    Prod.mk.injEq] at hpop
  obtain ⟨rfl, rfl⟩ := hpop
  refine ⟨rfl, htime, hlt, rfl, ?_, ?_, by simp [Tick.take]⟩
  · have hturns := h.turns
    simp only [dispatches] at hturns
    simp [Tick.take, dispatches, hturns, List.range_succ, htime]
  · rintro r ⟨⟩
    exact ⟨rfl, by simpa [Tick.take] using htime⟩

/-- INTERNAL: a process that is done leaves the CPU to the next one. -/
theorem Timetable.terminate (h : Timetable sps a d) (ha : a.Paced sps) {r : Task}
    (hr : a.running = some r) (hfin : jobTimeOf sps r.proc ≤ r.cpu + 1) :
    Timetable sps (a.execute.terminate r.ran) d := by
  obtain ⟨hproc, htime⟩ := h.working r hr
  have hcompletion : a.time + 1 = completion sps d := by
    rw [← hproc, completion_succ, ← ha.ran_eq_demand hr hfin, htime]
    ring
  refine ⟨by simpa [Tick.terminate] using h.begun, by simpa [Tick.terminate] using h.queue, ?_,
    by simp [Tick.terminate], fun _ => ?_⟩
  · rw [Tick.terminate_history hr]
    simpa [dispatches] using h.turns
  · have hnow : (a.execute.terminate r.ran).time = completion sps d := by
      rw [← hcompletion]
      exact a.execute_time
    rw [hnow]
    exact ⟨le_refl _, fun _ => completion_le_turn sps d, fun _ => rfl⟩

/-- INTERNAL: a process that is not done keeps the CPU. -/
theorem Timetable.keep (h : Timetable sps a d) {r : Task} (hr : a.running = some r) :
    Timetable sps a.execute d := by
  obtain ⟨hproc, htime⟩ := h.working r hr
  refine ⟨by simpa using h.begun, by simpa using h.queue, ?_, fun r' hr' => ?_, ?_⟩
  · rw [Tick.execute_history hr]
    simpa [dispatches] using h.turns
  · rw [Tick.execute_running hr, Option.some.injEq] at hr'
    subst hr'
    refine ⟨hproc, ?_⟩
    rw [Tick.execute_time, htime]
    simp only [Task.ran]
    ring
  · simp [Tick.execute_running hr]

/-- INTERNAL: with nothing to do, the scheduler waits for a turn that is still to come. -/
theorem Timetable.idle (h : Timetable sps a d) {sp : ScheduledProcess}
    (hsp : sps[a.admitted]? = some sp) (hwait : a.time < sp.startTime) (hidle : a.running = none)
    (hempty : popFirst a.queues = none) : Timetable sps a.execute d := by
  have hadm : a.admitted = d := by
    rw [h.queue, popFirst_eq_none_iff_flatten] at hempty
    have hbegun := h.begun
    simp only [List.flatten_cons, List.flatten_nil, List.append_nil, List.map_eq_nil_iff,
      List.range'_eq_nil_iff] at hempty
    omega
  rw [hadm] at hsp
  have hlt := (List.getElem?_eq_some_iff.mp hsp).1
  have hturn := time_lt_turn hsp hwait
  obtain ⟨hdone, -, -⟩ := h.waiting hidle
  refine ⟨by simpa using h.begun, by simpa using h.queue, ?_, ?_, fun _ => ?_⟩
  · rw [Tick.execute_idle_history hidle]
    exact h.turns
  · simp [Tick.execute_idle hidle, hidle]
  · rw [Tick.execute_time]
    exact ⟨by omega, fun _ => by omega, fun hge => absurd hlt (not_lt.mpr hge)⟩

/-- **The timetable is kept.** In every state that first come, first served comes through, the
processes whose turns have begun are the first ones of the file, each in its turn.
SOURCE: process-scheduler.c:378-424 -/
theorem timetable_of_reached (h : Reached fcfsPolicy sps a) :
    ∃ d, Timetable sps a d := by
  have hlevels : 0 < fcfsPolicy.levels := show 0 < 1 by decide
  induction h with
  | refl =>
    refine ⟨0, le_refl 0, rfl, rfl, by simp [Tick.initial], fun _ => ⟨le_refl 0, fun _ => ?_,
      fun _ => rfl⟩⟩
    exact completion_le_turn sps 0
  | tail hab hstep ih =>
    obtain ⟨d, hd⟩ := ih
    have hpaced := Reached.paced hab hlevels
    cases hstep with
    | arrive => exact ⟨d, hd.arrive⟩
    | dispatch _ hidle hpop => exact ⟨d + 1, (hd.take hpaced hidle hpop).2.2⟩
    | terminate hr hfin => exact ⟨d, hd.terminate hpaced hr hfin⟩
    | requeue _ _ hquantum => simp [fcfsPolicy] at hquantum
    | keep hr => exact ⟨d, hd.keep hr⟩
    | idle hsp hwait hidle hempty => exact ⟨d, hd.idle hsp hwait hidle hempty⟩

/-- INTERNAL: at the end every process has had its turn, and the last one is just done. -/
theorem Timetable.finished (h : Timetable sps a d) (hidle : a.running = none)
    (hempty : a.queues.flatten = []) (hadm : a.admitted = sps.length) :
    d = sps.length ∧ a.time = completion sps sps.length := by
  have hd : d = sps.length := by
    have hbegun := h.begun
    rw [h.queue] at hempty
    simp only [List.flatten_cons, List.flatten_nil, List.append_nil, List.map_eq_nil_iff,
      List.range'_eq_nil_iff] at hempty
    omega
  refine ⟨hd, ?_⟩
  rw [← hd]
  exact (h.waiting hidle).2.2 hd.ge

end Comp30023.Analysis
