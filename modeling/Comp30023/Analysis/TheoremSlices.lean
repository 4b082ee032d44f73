import Comp30023.Interface.SliceScheduler
import Comp30023.Analysis.WorkConservation
import Comp30023.Analysis.RunnerMemory

/-!
# The feedback queue works one slice at a time

`multi_scheduler_runner` looks at the clock in every time step: it admits processes, counts
the burst of the running one, tests whether it is finished and whether its quantum is used
up. The reference scheduler of `SliceScheduler` decides all this once per slice. It is
always ahead of the runner (`Ahead`): when the runner dispatches a process the reference
takes the whole slice, and while the runner works the slice off, or waits for the next
arrival, the reference stands still. What arrives during a slice enters the reference
later, but at the same place, because a process that comes back never joins the first
level.
-/

set_option autoImplicit false

namespace Comp30023.Analysis

open Comp30023.Library Comp30023.Model Comp30023.Interface

/-- What a task still needs, as the reference sees it. -/
def toJob (sps : List ScheduledProcess) (e : Task) : Job := ⟨e.proc, demand sps e.proc - e.cpu⟩

/-- The queues of the tick scheduler as the reference sees them. -/
def jobs (sps : List ScheduledProcess) (a : Tick) : List (List Job) :=
  a.queues.map (List.map (toJob sps))

/-- How long the running task may still run in its slice. -/
def sliceRest (q : Quanta) (sps : List ScheduledProcess) (r : Task) : ℤ :=
  min (levelQuantum q r.level - r.burst) (demand sps r.proc - r.cpu)

/-- The levels when the slice of a task is over. -/
def settle (q : Quanta) (sps : List ScheduledProcess) (r : Task) (levels : List (List Job)) :
    List (List Job) :=
  if demand sps r.proc - r.cpu ≤ sliceRest q sps r then levels
  else pushAt (min (r.level + 1) 2) ⟨r.proc, demand sps r.proc - r.cpu - sliceRest q sps r⟩ levels

/-- The reference is ahead of the tick scheduler by the rest of a slice or of a waiting time. -/
structure Ahead (q : Quanta) (sps : List ScheduledProcess) (a : Tick) (s : Slices) : Prop where
  reached : Reached (multiPolicy q) sps a
  log : dispatches a.history = s.log
  entered : s.entered ≤ a.admitted
  working : ∀ r, a.running = some r →
    0 < sliceRest q sps r ∧ s.time = a.time + sliceRest q sps r ∧
      s.levelsAt sps a.admitted = settle q sps r (jobs sps a)
  free : a.running = none → s.levelsAt sps a.admitted = jobs sps a ∧
    (s.time = a.time ∨
      (a.time < s.time ∧ a.queues.flatten = [] ∧ s.entered = a.admitted ∧
        a.admitted < sps.length ∧ arrival sps a.admitted = s.time))

variable {q : Quanta} {sps : List ScheduledProcess} {a b : Tick} {s : Slices}

/-! ## The queues and the levels -/

variable (sps) in
/-- INTERNAL: the reference takes the same process, from the level it is on. -/
theorem popHighest_jobs (qs : List (List Task)) (base : ℕ)
    (h : ∀ (k : ℕ) (queue : List Task), qs[k]? = some queue → ∀ e ∈ queue, e.level = base + k) :
    popHighest (qs.map (List.map (toJob sps))) = (popFirst qs).map fun x =>
      (x.1.level - base, toJob sps x.1, x.2.map (List.map (toJob sps))) := by
  induction qs generalizing base with
  | nil => rfl
  | cons queue qs ih =>
    cases queue with
    | cons e queue =>
      have hlevel := h 0 _ rfl e List.mem_cons_self
      simp [popHighest, popFirst, hlevel]
    | nil =>
      have hrec := ih (base + 1) fun k queue hk e he => by
        have := h (k + 1) queue (by simpa using hk) e he
        omega
      simp only [List.map_cons, List.map_nil, popHighest, popFirst, hrec, Option.map_map]
      cases hpop : popFirst qs with
      | none => rfl
      | some x =>
        obtain ⟨e, qs'⟩ := x
        obtain ⟨k, queue, hk, -, -⟩ := popFirst_eq_some hpop
        have hlevel := h (k + 1) _ (by simpa using hk) e List.mem_cons_self
        simp only [Option.map_some, Function.comp_apply, List.map_cons, List.map_nil,
          Option.some.injEq, Prod.mk.injEq, and_true]
        omega

theorem jobs_admitOne (a : Tick) : jobs sps a.admitOne =
    (jobs sps a).modifyHead (· ++ newcomers sps a.admitted (a.admitted + 1)) := by
  have hnew : newcomers sps a.admitted (a.admitted + 1) =
      [⟨a.admitted, demand sps a.admitted⟩] := by
    simp [newcomers, List.range_succ]
  unfold jobs Tick.admitOne
  rw [pushAt_map, hnew]
  cases a.queues <;> simp [toJob, pushAt]

variable (sps) in
/-- INTERNAL: what admission does to the queues, as the reference sees it. -/
theorem jobs_admitFrom (rest : List ScheduledProcess) (a : Tick) :
    a.admitted ≤ (a.admitFrom rest).admitted ∧ (a.admitFrom rest).running = a.running ∧
      dispatches (a.admitFrom rest).history = dispatches a.history ∧
      jobs sps (a.admitFrom rest) =
        (jobs sps a).modifyHead (· ++ newcomers sps a.admitted (a.admitFrom rest).admitted) := by
  have hstay : jobs sps a = (jobs sps a).modifyHead (· ++ newcomers sps a.admitted a.admitted) := by
    rw [newcomers_self]
    cases jobs sps a <;> simp
  induction rest generalizing a with
  | nil => exact ⟨le_rfl, rfl, rfl, hstay⟩
  | cons sp rest ih =>
    unfold Tick.admitFrom
    split
    · have hstay' : jobs sps a.admitOne = (jobs sps a.admitOne).modifyHead
          (· ++ newcomers sps a.admitOne.admitted a.admitOne.admitted) := by
        rw [newcomers_self]
        cases jobs sps a.admitOne <;> simp
      obtain ⟨hle, hrun, hlog, hjobs⟩ := ih a.admitOne hstay'
      have hle' : a.admitted + 1 ≤ (a.admitOne.admitFrom rest).admitted := hle
      refine ⟨by omega, hrun, ?_, ?_⟩
      · rw [hlog]
        simp [Tick.admitOne, dispatches]
      · rw [hjobs, jobs_admitOne, List.modifyHead_modifyHead,
          ← newcomers_append (Nat.le_succ a.admitted) hle']
        congr 1
        funext l
        simp [Tick.admitOne]
    · exact ⟨le_rfl, rfl, rfl, hstay⟩

/-- INTERNAL: what comes back at the end of a slice does not get in the way of new processes. -/
theorem settle_modifyHead (r : Task) (levels : List (List Job)) (new : List Job) :
    (settle q sps r levels).modifyHead (· ++ new) =
      settle q sps r (levels.modifyHead (· ++ new)) := by
  unfold settle
  split_ifs
  · rfl
  · have hlevel : ∃ k, min (r.level + 1) 2 = k + 1 := by
      rcases Nat.le_total (r.level + 1) 2 with h | h
      · exact ⟨r.level, by omega⟩
      · exact ⟨1, by omega⟩
    obtain ⟨k, hk⟩ := hlevel
    rw [hk]
    cases levels <;> simp [pushAt]

/-! ## Working off a slice -/

/-- INTERNAL: a time step takes one off the rest of the slice. -/
theorem sliceRest_ran (r : Task) : sliceRest q sps r.ran = sliceRest q sps r - 1 := by
  unfold sliceRest Task.ran
  dsimp only
  omega

/-- INTERNAL: where a task goes at the end of its slice is settled when the slice begins. -/
theorem settle_ran (r : Task) (levels : List (List Job)) :
    settle q sps r.ran levels = settle q sps r levels := by
  unfold settle
  rw [sliceRest_ran]
  simp only [Task.ran]
  congr 1
  · rw [eq_iff_iff]
    omega
  · congr 2
    omega

/-- INTERNAL: the slice ends because the job does. -/
theorem Ahead.work_terminated {r : Task} (hr : b.running = some r)
    (hreached : Reached (multiPolicy q) sps (b.execute.terminate r.ran))
    (hlog : dispatches b.history = s.log) (hentered : s.entered ≤ b.admitted)
    (htime : s.time = b.time + sliceRest q sps r)
    (hlevels : s.levelsAt sps b.admitted = settle q sps r (jobs sps b))
    (hone : sliceRest q sps r = 1) (hle : demand sps r.proc - r.cpu ≤ 1) :
    Ahead q sps (b.execute.terminate r.ran) s := by
  refine ⟨hreached, ?_, ?_, by simp [Tick.terminate], fun _ => ⟨?_, Or.inl ?_⟩⟩
  · rw [← hlog, Tick.terminate_history hr]
    simp [dispatches]
  · simpa [Tick.terminate] using hentered
  · have hadm : (b.execute.terminate r.ran).admitted = b.admitted := b.execute_admitted
    rw [hadm, hlevels, settle, if_pos (by omega)]
    simp [jobs, Tick.terminate]
  · rw [htime, hone]
    exact b.execute_time.symm

/-- INTERNAL: the slice ends because the quantum does. -/
theorem Ahead.work_requeued {r : Task} (hr : b.running = some r)
    (hreached : Reached (multiPolicy q) sps (b.execute.requeue (multiPolicy q) r.ran))
    (hlog : dispatches b.history = s.log) (hentered : s.entered ≤ b.admitted)
    (htime : s.time = b.time + sliceRest q sps r)
    (hlevels : s.levelsAt sps b.admitted = settle q sps r (jobs sps b))
    (hone : sliceRest q sps r = 1) (hmore : 1 < demand sps r.proc - r.cpu) :
    Ahead q sps (b.execute.requeue (multiPolicy q) r.ran) s := by
  refine ⟨hreached, ?_, ?_, by simp [Tick.requeue], fun _ => ⟨?_, Or.inl ?_⟩⟩
  · rw [← hlog, Tick.requeue_history hr]
    simp [dispatches]
  · simpa [Tick.requeue] using hentered
  · have hadm : (b.execute.requeue (multiPolicy q) r.ran).admitted = b.admitted :=
      b.execute_admitted
    rw [hadm, hlevels, settle, if_neg (by omega), hone]
    unfold jobs Tick.requeue
    rw [pushAt_map, Tick.execute_queues]
    simp only [toJob, Task.ran, multiPolicy, minPriority]
    congr 2
    omega
  · rw [htime, hone]
    exact b.execute_time.symm

/-- INTERNAL: the slice goes on. -/
theorem Ahead.work_on {r : Task} (hr : b.running = some r)
    (hreached : Reached (multiPolicy q) sps b.execute)
    (hlog : dispatches b.history = s.log) (hentered : s.entered ≤ b.admitted)
    (htime : s.time = b.time + sliceRest q sps r)
    (hlevels : s.levelsAt sps b.admitted = settle q sps r (jobs sps b))
    (hmore : 1 < sliceRest q sps r) : Ahead q sps b.execute s := by
  refine ⟨hreached, ?_, by simpa using hentered, fun r' hr' => ?_, fun hidle => ?_⟩
  · rw [← hlog, Tick.execute_history hr]
    simp [dispatches]
  · rw [Tick.execute_running hr, Option.some.injEq] at hr'
    subst hr'
    have hran : sliceRest q sps r.ran = sliceRest q sps r - 1 := sliceRest_ran r
    refine ⟨by omega, by rw [hran, htime, Tick.execute_time]; ring, ?_⟩
    rw [Tick.execute_admitted, hlevels, settle_ran]
    simp [jobs]
  · simp [Tick.execute_running hr] at hidle

/-- INTERNAL: one time step of a slice. The reference does not move: what is left of the slice
and of the job go down together.
SOURCE: process-scheduler.c:509-539 -/
theorem Ahead.work {r : Task} (hb : Reached (multiPolicy q) sps b) (hr : b.running = some r)
    (hlog : dispatches b.history = s.log) (hentered : s.entered ≤ b.admitted)
    (hrest : 0 < sliceRest q sps r) (htime : s.time = b.time + sliceRest q sps r)
    (hlevels : s.levelsAt sps b.admitted = settle q sps r (jobs sps b)) :
    Ahead q sps (b.execute.finish (multiPolicy q) sps) s := by
  have hlive := (hb.paced (show 0 < minPriority by decide)).running_live hr
  have hfin : r.ran.cpu ≥ jobTimeOf sps r.ran.proc ↔ demand sps r.proc - r.cpu ≤ 1 := by
    simp only [demand, Task.ran] at hlive ⊢
    omega
  have hquantum : (multiPolicy q).exhausted r.ran.level r.ran.burst = true ↔
      levelQuantum q r.level - r.burst ≤ 1 := by
    simp only [multiPolicy, Task.ran, decide_eq_true_eq]
    omega
  have hmin : sliceRest q sps r = min (levelQuantum q r.level - r.burst)
    (demand sps r.proc - r.cpu) := rfl
  have hreached : Reached (multiPolicy q) sps (b.execute.finish (multiPolicy q) sps) :=
    Relation.ReflTransGen.tail hb (Tick.work_step hr)
  unfold Tick.finish at hreached ⊢
  rw [Tick.execute_running hr] at hreached ⊢
  simp only at hreached ⊢
  by_cases hdone : r.ran.cpu ≥ jobTimeOf sps r.ran.proc
  · have hle := hfin.mp hdone
    rw [if_pos hdone] at hreached ⊢
    exact Ahead.work_terminated hr hreached hlog hentered htime hlevels (by omega) hle
  · have hmore : 1 < demand sps r.proc - r.cpu := not_le.mp fun h => hdone (hfin.mpr h)
    rw [if_neg hdone] at hreached ⊢
    by_cases hover : (multiPolicy q).exhausted r.ran.level r.ran.burst = true
    · have hle := hquantum.mp hover
      rw [if_pos hover] at hreached ⊢
      exact Ahead.work_requeued hr hreached hlog hentered htime hlevels (by omega) hmore
    · have hleft : 1 < levelQuantum q r.level - r.burst := not_le.mp fun h => hover (hquantum.mpr h)
      rw [if_neg hover] at hreached ⊢
      exact Ahead.work_on hr hreached hlog hentered htime hlevels (by omega)

/-! ## One time step -/

/-- INTERNAL: the first time step of a slice: the reference takes the slice.
SOURCE: process-scheduler.c:486-499 -/
theorem ahead_of_take (hq : ∀ level, 1 ≤ levelQuantum q level) {e : Task}
    {queues : List (List Task)} (hb : Reached (multiPolicy q) sps b)
    (htake : Reached (multiPolicy q) sps (b.take e queues)) (hidle : b.running = none)
    (hpop : popFirst b.queues = some (e, queues)) (henter : s.enter sps =
      { s with entered := b.admitted, levels := jobs sps b })
    (htime : s.time = b.time) (hlog : dispatches b.history = s.log) :
    ∃ s', slicePass q sps s = .again s' ∧
      Ahead q sps ((b.take e queues).execute.finish (multiPolicy q) sps) s' := by
  have hplaced := hb.placed (show 0 < minPriority by decide)
  have hpaced := hb.paced (show 0 < minPriority by decide)
  have hmem : e ∈ b.queues.flatten := (popFirst_perm hpop).mem_iff.mpr List.mem_cons_self
  have hlive := hpaced.live e.share (by
    rw [Tick.load_idle hidle]
    exact List.mem_map_of_mem hmem)
  have hhighest := popHighest_jobs sps b.queues 0 fun k queue hk t ht => by
    rw [(hplaced.queued k queue hk t ht).1, Nat.zero_add]
  rw [hpop, Option.map_some] at hhighest
  have hpass : slicePass q sps s = .again
      { time := s.time + min (levelQuantum q e.level) (demand sps e.proc - e.cpu)
        entered := b.admitted
        levels := settle q sps { e with burst := 0 } (queues.map (List.map (toJob sps)))
        log := s.log ++ [(s.time, e.proc)] } := by
    unfold slicePass
    simp only [henter]
    unfold jobs
    rw [hhighest]
    simp [settle, sliceRest, toJob]
  refine ⟨_, hpass, Ahead.work (r := { e with burst := 0 }) htake rfl ?_ le_rfl ?_ ?_ ?_⟩
  · simp only [Tick.take, ← hlog, htime]
    simp [dispatches]
  · have := hq e.level
    simp only [Task.share] at hlive
    simp only [sliceRest]
    omega
  · simp only [sliceRest, Tick.take, htime]
    congr 2
    ring
  · exact levelsAt_entered sps _

/-- INTERNAL: while the tick scheduler waits, the reference has gone to the next arrival.
SOURCE: process-scheduler.c:503-506 -/
theorem ahead_of_idle (hb : Reached (multiPolicy q) sps b)
    (hstep : Step (multiPolicy q) sps b b.execute) (hidle : b.running = none)
    (hempty : popFirst b.queues = none) (hleft : b.admitted < sps.length)
    (hlog : dispatches b.history = s.log) (hentered : s.entered = b.admitted)
    (hlevels : s.levels = jobs sps b) (harrival : arrival sps b.admitted = s.time)
    (hwait : b.time < s.time) : Ahead q sps b.execute s where
  reached := Relation.ReflTransGen.tail hb hstep
  log := by
    rw [Tick.execute_idle_history hidle]
    exact hlog
  entered := by rw [Tick.execute_admitted, hentered]
  working := by simp [Tick.execute_idle hidle, hidle]
  free := by
    intro _
    rw [Tick.execute_admitted, ← hentered, levelsAt_entered]
    refine ⟨by simpa [jobs] using hlevels, ?_⟩
    rw [Tick.execute_time, Tick.execute_queues]
    rcases lt_or_eq_of_le (Int.add_one_le_iff.mpr hwait) with hlt | heq
    · refine Or.inr ⟨hlt, popFirst_eq_none_iff_flatten.mp hempty, rfl, ?_, ?_⟩
      · omega
      · rw [hentered]
        exact harrival
    · exact Or.inl heq.symm

theorem Ahead.arrive (h : Ahead q sps a s) :
    Reached (multiPolicy q) sps (a.arrive sps) ∧ (a.arrive sps).time = a.time ∧
      (a.arrive sps).running = a.running ∧ dispatches (a.arrive sps).history = s.log ∧
      s.entered ≤ (a.arrive sps).admitted ∧
      (∀ proc, proc < (a.arrive sps).admitted ↔ proc < sps.length ∧ arrival sps proc ≤ a.time) ∧
      jobs sps (a.arrive sps) =
        (jobs sps a).modifyHead (· ++ newcomers sps a.admitted (a.arrive sps).admitted) ∧
      a.admitted ≤ (a.arrive sps).admitted := by
  obtain ⟨hsteps, htime, hwait⟩ := a.admit_steps (multiPolicy q) sps
  obtain ⟨hle, hrun, hlog, hjobs⟩ := jobs_admitFrom sps (sps.drop a.admitted) a
  have hb : Reached (multiPolicy q) sps (a.arrive sps) :=
    Relation.ReflTransGen.trans h.reached hsteps
  refine ⟨hb, htime, hrun, hlog.trans h.log, h.entered.trans hle, fun proc => ?_, hjobs, hle⟩
  rw [← htime]
  exact admitted_iff (hb.paced (show 0 < minPriority by decide)) hwait proc

/-- INTERNAL: nothing is admitted before the next process arrives. -/
theorem admit_eq_self (ha : a.Paced sps) (hnext : a.admitted < sps.length)
    (hwait : a.time < arrival sps a.admitted) : a.arrive sps = a := by
  have hstart : a.time < sps[a.admitted].startTime := by
    by_contra hdue
    refine absurd (arrival_le_iff.mpr ⟨ha.time, fun j hj sp hsp => ?_⟩) (not_le.mpr hwait)
    rcases Nat.lt_or_eq_of_le hj with hlt | rfl
    · exact ha.due j hlt sp hsp
    · rw [List.getElem?_eq_getElem hnext, Option.some.injEq] at hsp
      exact hsp ▸ not_lt.mp hdue
  unfold Tick.arrive
  rw [List.drop_eq_getElem_cons hnext, Tick.admitFrom, if_neg (not_le.mpr hstart)]

/-- INTERNAL: a time step while a process is on the CPU: the reference stands still. -/
theorem Ahead.pass_working (h : Ahead q sps a s) {r : Task} (hr : a.running = some r) :
    ∃ a', a.pass (multiPolicy q) sps = .again a' ∧ Ahead q sps a' s := by
  obtain ⟨hb, htime, hrun, hlog, hentered, -, hjobs, hle⟩ := h.arrive
  obtain ⟨hrest, hst, hlevels⟩ := h.working r hr
  have hrb : (a.arrive sps).running = some r := hrun.trans hr
  have hpass : a.pass (multiPolicy q) sps =
      .again ((a.arrive sps).execute.finish (multiPolicy q) sps) := by
    simp [Tick.pass, Tick.dispatch, hrb]
  refine ⟨_, hpass, Ahead.work hb hrb hlog hentered hrest (by rw [hst, htime]) ?_⟩
  rw [hjobs, ← settle_modifyHead, ← hlevels, levelsAt_modifyHead h.entered hle]

/-- INTERNAL: a time step while the reference has gone ahead to the next arrival. -/
theorem Ahead.pass_waiting (h : Ahead q sps a s) (hidle : a.running = none)
    (hwait : a.time < s.time) :
    ∃ a', a.pass (multiPolicy q) sps = .again a' ∧ Ahead q sps a' s := by
  obtain ⟨hlevels, heq | ⟨-, hempty, hentered, hnext, harrival⟩⟩ := h.free hidle
  · omega
  · have hpaced := h.reached.paced (show 0 < minPriority by decide)
    have hself := admit_eq_self hpaced hnext (by omega)
    have hnone := popFirst_eq_none_iff_flatten.mpr hempty
    have hsp := List.getElem?_eq_getElem hnext
    have hpass : a.pass (multiPolicy q) sps = .again a.execute := by
      unfold Tick.pass Tick.dispatch
      rw [hself, hidle, hnone, hsp]
      simp only [reduceCtorEq, if_false]
      rw [Tick.idle_finish hidle]
    obtain ⟨-, -, hwait'⟩ := a.admit_steps (multiPolicy q) sps
    rw [hself] at hwait'
    refine ⟨_, hpass, ahead_of_idle h.reached (.idle hsp (hwait' _ hsp) hidle hnone) hidle hnone
      hnext h.log hentered ?_ harrival hwait⟩
    rw [← hentered, levelsAt_entered] at hlevels
    exact hlevels

/-- INTERNAL: a time step in which the CPU is free and the reference is not ahead: both make the
same decision.
SOURCE: process-scheduler.c:486-507 -/
theorem Ahead.pass_deciding (h : Ahead q sps a s) (hq : ∀ level, 1 ≤ levelQuantum q level)
    (hidle : a.running = none) (hnow : s.time = a.time) :
    (∃ a' s', a.pass (multiPolicy q) sps = .again a' ∧ slicePass q sps s = .again s' ∧
      Ahead q sps a' s') ∨
    ∃ a' s', a.pass (multiPolicy q) sps = .done a' ∧ slicePass q sps s = .done s' ∧
      dispatches a'.history = s'.log ∧ a'.time = s'.time := by
  obtain ⟨hb, htime, hrun, hlog, hentered, hadm, hjobs, hle⟩ := h.arrive
  obtain ⟨hlevels, -⟩ := h.free hidle
  have hpaced := hb.paced (show 0 < minPriority by decide)
  have henter : s.enter sps =
      { s with entered := (a.arrive sps).admitted, levels := jobs sps (a.arrive sps) } := by
    rw [enter_eq hentered hpaced.bound fun proc hproc => by rw [hadm, hnow]; simp [hproc], hjobs,
      ← hlevels, levelsAt_modifyHead h.entered hle]
  have hplaced := hb.placed (show 0 < minPriority by decide)
  have hhighest := popHighest_jobs sps (a.arrive sps).queues 0
    fun k queue hk t ht => by rw [(hplaced.queued k queue hk t ht).1, Nat.zero_add]
  obtain ⟨-, -, hwait⟩ := a.admit_steps (multiPolicy q) sps
  have hst : s.time = (a.arrive sps).time := by rw [hnow, htime]
  unfold Tick.pass
  rcases (a.arrive sps).dispatch_cases sps with ⟨r, hr, -⟩ | ⟨hfree, e, queues, hpop, hd⟩ |
    ⟨hfree, hnone, hleft, hd⟩ | ⟨hfree, hnone, hend, hd⟩
  · rw [hrun, hidle] at hr
    simp at hr
  · left
    obtain ⟨s', hs', hahead⟩ := ahead_of_take hq hb
      (Relation.ReflTransGen.tail hb (.dispatch hwait hfree hpop)) hfree hpop henter hst hlog
    exact ⟨_, s', by rw [hd], hs', hahead⟩
  · left
    obtain ⟨sp, hsp⟩ := Option.ne_none_iff_exists'.mp hleft
    have hlt := (List.getElem?_eq_some_iff.mp hsp).1
    have hslice : slicePass q sps s = .again
        { s with time := arrival sps (a.arrive sps).admitted, entered := (a.arrive sps).admitted,
                 levels := jobs sps (a.arrive sps) } := by
      rw [hnone, Option.map_none] at hhighest
      unfold slicePass
      simp only [henter]
      unfold jobs
      rw [hhighest]
      simp only [hlt, if_true]
    have hlater : a.time < arrival sps (a.arrive sps).admitted := by
      by_contra hle'
      exact absurd ((hadm _).mpr ⟨hlt, not_lt.mp hle'⟩) (lt_irrefl _)
    refine ⟨_, _, by rw [hd], hslice, ?_⟩
    rw [Tick.idle_finish hfree]
    exact ahead_of_idle hb (.idle hsp (hwait sp hsp) hfree hnone) hfree hnone hlt hlog rfl rfl rfl
      (by rw [htime]; exact hlater)
  · right
    have hge := List.getElem?_eq_none_iff.mp hend
    have hslice : slicePass q sps s = .done
        { s with entered := (a.arrive sps).admitted, levels := jobs sps (a.arrive sps) } := by
      rw [hnone, Option.map_none] at hhighest
      unfold slicePass
      simp only [henter]
      unfold jobs
      rw [hhighest]
      simp only [not_lt.mpr hge, if_false]
    exact ⟨_, _, by rw [hd], hslice, hlog, hst.symm⟩

/-! ## Whole runs -/

/-- INTERNAL: the reference stops when the tick scheduler does, with the same dispatches. -/
theorem slices_of_tickRun (hq : ∀ level, 1 ≤ levelQuantum q level) {n : ℕ}
    (hdone : tickRun (multiPolicy q) sps n = .ok (.done a)) :
    ∃ s, Exits (pureBody (slicePass q sps)) Slices.initial s ∧
      dispatches a.history = s.log ∧ a.time = s.time := by
  have hinit : Ahead q sps (Tick.initial (multiPolicy q)) Slices.initial :=
    ⟨Relation.ReflTransGen.refl, rfl, le_rfl, by simp [Tick.initial],
      fun _ => ⟨levelsAt_entered sps Slices.initial, Or.inl rfl⟩⟩
  refine exits_of_stutter (R := Ahead q sps)
    (Q := fun a s => dispatches a.history = s.log ∧ a.time = s.time) ?_ ?_ n _ _ a hinit hdone
  · intro a s a' h hpass
    cases hr : a.running with
    | some r =>
      obtain ⟨a'', hpass', hahead⟩ := h.pass_working hr
      rw [hpass, Pass.again.injEq] at hpass'
      exact Or.inl (hpass' ▸ hahead)
    | none =>
      by_cases hnow : s.time = a.time
      · rcases h.pass_deciding hq hr hnow with ⟨a'', s', hpass', hs', hahead⟩ | ⟨a'', s', hpass', -⟩
        · rw [hpass, Pass.again.injEq] at hpass'
          exact Or.inr ⟨s', hs', hpass' ▸ hahead⟩
        · simp [hpass] at hpass'
      · obtain ⟨a'', hpass', hahead⟩ := h.pass_waiting hr (by
          rcases (h.free hr).2 with heq | ⟨hlt, -⟩
          · exact absurd heq hnow
          · exact hlt)
        rw [hpass, Pass.again.injEq] at hpass'
        exact Or.inl (hpass' ▸ hahead)
  · intro a s a' h hpass
    cases hr : a.running with
    | some r =>
      obtain ⟨a'', hpass', -⟩ := h.pass_working hr
      simp [hpass] at hpass'
    | none =>
      by_cases hnow : s.time = a.time
      · rcases h.pass_deciding hq hr hnow with ⟨a'', s', hpass', -⟩ |
          ⟨a'', s', hpass', hs', hlog, htime⟩
        · simp [hpass] at hpass'
        · rw [hpass, Pass.done.injEq] at hpass'
          exact ⟨s', hs', hpass' ▸ hlog, hpass' ▸ htime⟩
      · obtain ⟨a'', hpass', -⟩ := h.pass_waiting hr (by
          rcases (h.free hr).2 with heq | ⟨hlt, -⟩
          · exact absurd heq hnow
          · exact hlt)
        simp [hpass] at hpass'

/-- **The runner refines the feedback queue that works one slice at a time.** For any positive
quanta and every file whose processes fit, the status lines of `multi_scheduler_runner` are
for the same processes at the same times as the dispatches of the reference, and both end
at the same time.
SOURCE: process-scheduler.c:439-556 -/
theorem multi_refines_slices (q : Quanta) (sps : List ScheduledProcess) (memsize : ℤ)
    (hq : 1 ≤ q.q1 ∧ 1 ≤ q.q2 ∧ 1 ≤ q.q3)
    (hfit : ∀ sp ∈ sps, 1 ≤ sp.memorySize ∧ sp.memorySize ≤ memsize) :
    ∃ s r, Exits (multiSchedulerPass q sps memsize) (multiInitialState memsize) s ∧
      Exits (pureBody (slicePass q sps)) Slices.initial r ∧
      statuses s.trace = r.log.map (fun x => (x.1, x.2, processIdOf sps x.2)) ∧
      s.time = r.time := by
  have hquanta : ∀ level, 1 ≤ levelQuantum q level := by
    intro level
    match level with
    | 0 => exact hq.1
    | 1 => exact hq.2.1
    | _ + 2 => exact hq.2.2
  obtain ⟨s, a, n, hexits, hdone, hrep, hw⟩ :=
    exits_of_fit (multi_runs q sps memsize) (show 0 < minPriority by decide) hfit
  obtain ⟨r, hr, hlog, htime⟩ := slices_of_tickRun hquanta hdone
  refine ⟨s, r, hexits, hr, ?_, by rw [hrep.time, htime]⟩
  rw [statuses_of_reached hw, hlog]

/-- Three processes with an arrival during a slice and a waiting time.
SOURCE: process-scheduler.c:439-556 -/
theorem multi_refines_slices_three :
    ∃ s r, Exits (multiSchedulerPass ⟨2, 4, 8⟩ [⟨0, 5, 60, 9⟩, ⟨1, 6, 60, 0⟩, ⟨14, 5, 100, 3⟩] 100)
        (multiInitialState 100) s ∧
      Exits (pureBody (slicePass ⟨2, 4, 8⟩ [⟨0, 5, 60, 9⟩, ⟨1, 6, 60, 0⟩, ⟨14, 5, 100, 3⟩]))
        Slices.initial r ∧
      statuses s.trace = r.log.map (fun x => (x.1, x.2,
        processIdOf [⟨0, 5, 60, 9⟩, ⟨1, 6, 60, 0⟩, ⟨14, 5, 100, 3⟩] x.2)) ∧ s.time = r.time :=
  multi_refines_slices ⟨2, 4, 8⟩ _ 100 (by decide) (by decide)

end Comp30023.Analysis
