import Comp30023.Analysis.RunnerMemory

/-!
# With a long first quantum the feedback queue is first come, first served

If the first quantum is at least as long as every job, a process is finished before its
quantum is used up, even in the time step where both tests would succeed, because the
finish test comes first. So nothing ever leaves the first level, the two schedulers take
the same actions (`Mirrors`), and equal actions mean equal memory and equal output.

Under first come, first served only the running process is in main memory (`Alone`), so
that a process that is loaded finds main memory empty.
-/

set_option autoImplicit false

namespace Comp30023.Analysis

open Comp30023.Library Comp30023.Model Comp30023.Interface

/-! ## The two schedulers in lockstep -/

/-- A first come, first served scheduler and a feedback queue that has only used its first
level. -/
structure Mirrors (a b : Tick) : Prop where
  time : b.time = a.time
  admitted : b.admitted = a.admitted
  running : b.running = a.running
  terminated : b.terminated = a.terminated
  history : b.history = a.history
  queues : ∃ queue, a.queues = [queue] ∧ b.queues = [queue, [], []] ∧
    ∀ e ∈ queue, e.level = 0 ∧ e.cpu = 0
  fresh : ∀ r, a.running = some r → r.level = 0 ∧ r.burst = r.cpu

variable {sps : List ScheduledProcess} {a b : Tick} {q : Quanta}

theorem Mirrors.admitFrom (h : Mirrors a b) (rest : List ScheduledProcess) :
    Mirrors (a.admitFrom rest) (b.admitFrom rest) := by
  induction rest generalizing a b with
  | nil => exact h
  | cons sp rest ih =>
    unfold Tick.admitFrom
    rw [h.time]
    by_cases hdue : sp.startTime ≤ a.time
    · rw [if_pos hdue, if_pos hdue]
      apply ih
      obtain ⟨queue, ha, hb, hfresh⟩ := h.queues
      refine ⟨h.time, by simp [Tick.admitOne, h.admitted], h.running, h.terminated,
        by simp [Tick.admitOne, h.history, h.admitted],
        ⟨queue ++ [⟨a.admitted, 0, 0, 0⟩], ?_, ?_, ?_⟩, h.fresh⟩
      · simp [Tick.admitOne, ha, pushAt]
      · simp [Tick.admitOne, hb, pushAt, h.admitted]
      · intro e he
        rcases List.mem_append.mp he with he | he
        · exact hfresh e he
        · rw [List.mem_singleton.mp he]
          exact ⟨rfl, rfl⟩
    · rw [if_neg hdue, if_neg hdue]
      exact h

/-- INTERNAL: both take the same next task. -/
theorem Mirrors.dispatch (h : Mirrors a b) :
    Matches Mirrors (fun _ (e : Empty) => e.elim) (.ok (a.dispatch sps)) (b.dispatch sps) := by
  unfold Tick.dispatch
  obtain ⟨queue, ha, hb, hfresh⟩ := h.queues
  rw [h.running, h.admitted]
  cases hr : a.running with
  | some r => exact Matches.again h
  | none =>
    simp only
    cases queue with
    | nil =>
      rw [ha, hb]
      simp only [popFirst]
      split_ifs
      · exact Matches.done h
      · exact Matches.again h
    | cons e queue =>
      rw [ha, hb]
      simp only [popFirst]
      refine Matches.again ⟨h.time, rfl, rfl, h.terminated, ?_, ⟨queue, rfl, rfl, ?_⟩, ?_⟩
      · rw [h.history, h.time]
      · intro x hx
        exact hfresh x (List.mem_cons_of_mem _ hx)
      · rintro r ⟨⟩
        obtain ⟨hlevel, hcpu⟩ := hfresh e List.mem_cons_self
        exact ⟨hlevel, hcpu.symm⟩

theorem Mirrors.execute (h : Mirrors a b) : Mirrors a.execute b.execute := by
  refine ⟨by simp [h.time], by simp [h.admitted], ?_, by simp [h.terminated], ?_,
    by simpa using h.queues, fun r hr => ?_⟩
  · unfold Tick.execute
    rw [h.running]
    cases hr : a.running <;> simp
  · unfold Tick.execute
    rw [h.running]
    cases hr : a.running <;> simp [h.history, h.time]
  · cases hr' : a.running with
    | none => simp [Tick.execute_idle hr', hr'] at hr
    | some r' =>
      rw [Tick.execute_running hr', Option.some.injEq] at hr
      rw [← hr]
      simp [Task.ran, h.fresh r' hr']

/-- INTERNAL: a task that is not finished has not used up the first quantum either.
SOURCE: process-scheduler.c:519-539 -/
theorem Mirrors.finish (h : Mirrors a b) (hjobs : ∀ proc, jobTimeOf sps proc ≤ q.q1) :
    Mirrors (a.finish fcfsPolicy sps) (b.finish (multiPolicy q) sps) := by
  unfold Tick.finish
  rw [h.running]
  cases hr : a.running with
  | none => exact h
  | some r =>
    simp only
    by_cases hfin : r.cpu ≥ jobTimeOf sps r.proc
    · rw [if_pos hfin, if_pos hfin]
      exact ⟨h.time, h.admitted, rfl, by simp [Tick.terminate, h.terminated],
        by simp [Tick.terminate, h.history], h.queues, by simp [Tick.terminate]⟩
    · obtain ⟨hlevel, hburst⟩ := h.fresh r hr
      have hjob := hjobs r.proc
      have hquantum : (multiPolicy q).exhausted r.level r.burst = false := by
        simp only [multiPolicy, hlevel, levelQuantum, decide_eq_false_iff_not, hburst]
        omega
      rw [if_neg hfin, if_neg hfin, hquantum]
      exact h

theorem Mirrors.pass (h : Mirrors a b) (hjobs : ∀ proc, jobTimeOf sps proc ≤ q.q1) :
    Matches Mirrors (fun _ (e : Empty) => e.elim) (pureBody (Tick.pass fcfsPolicy sps) a)
      (b.pass (multiPolicy q) sps) := by
  have harrive : Mirrors (a.arrive sps) (b.arrive sps) := by
    unfold Tick.arrive
    rw [h.admitted]
    exact h.admitFrom _
  have hdispatch : Matches Mirrors (fun _ (e : Empty) => e.elim) (.ok ((a.arrive sps).dispatch sps))
      ((b.arrive sps).dispatch sps) := harrive.dispatch
  unfold pureBody Tick.pass
  generalize (a.arrive sps).dispatch sps = p at hdispatch
  generalize (b.arrive sps).dispatch sps = r at hdispatch
  cases hdispatch with
  | done h' => exact Matches.done h'
  | again h' => exact Matches.again (h'.execute.finish hjobs)

/-- INTERNAL: both schedulers stop after the same actions. -/
theorem mirrors_of_exits (hjobs : ∀ proc, jobTimeOf sps proc ≤ q.q1)
    (hdone₁ : Exits (pureBody (Tick.pass fcfsPolicy sps)) (Tick.initial fcfsPolicy) a)
    (hdone₂ : Exits (pureBody (Tick.pass (multiPolicy q) sps)) (Tick.initial (multiPolicy q)) b) :
    Mirrors a b := by
  obtain ⟨n, hn⟩ := hdone₁
  have hinit : Mirrors (Tick.initial fcfsPolicy) (Tick.initial (multiPolicy q)) :=
    ⟨rfl, rfl, rfl, rfl, rfl, ⟨[], rfl, rfl, by simp⟩, by simp [Tick.initial]⟩
  obtain ⟨p, hp, hm⟩ := loop_matches (F := fun _ (e : Empty) => e.elim)
    (fun _ _ h => Mirrors.pass h hjobs) (fun _ e => e.elim) n _ _ hinit
  rw [hn] at hm
  cases hm with
  | done hmirror => exact Exits.unique ⟨n, hp⟩ hdone₂ ▸ hmirror

/-! ## Main memory under first come, first served -/

/-- Only the running process is in main memory, and nothing was demoted or evicted so far. -/
structure Alone (w : World) : Prop where
  resident : ∀ p ∈ residents w.mem.procMems, ∃ r, w.tick.running = some r ∧ r.proc = p.ptr
  demoted : ∀ pcb, Event.decreasePriority pcb ∉ w.trace
  evicted : ∀ pcb time victims, Event.swapIn pcb time victims ∈ w.trace → victims = []

/-- The free list beside a single process memory at the top of main memory. -/
def holesBelow (M size : ℤ) : List FreeMemorySegment :=
  if size = M then [] else [⟨M - size, M - size⟩]

/-- INTERNAL: a process that is loaded into an empty main memory fits at once, at its top.
SOURCE: memory-management.c:351-403 -/
theorem load_alone {M : ℤ} {w : World} (hI : InMemory sps M w) (hM : 1 ≤ M)
    (hfit : ∀ sp ∈ sps, 1 ≤ sp.memorySize ∧ sp.memorySize ≤ M)
    (hempty : residents w.mem.procMems = []) {proc : ℕ} (hproc : proc < w.tick.admitted)
    (time : ℤ) :
    ∃ p sp, w.mem.find proc = some p ∧ sps[proc]? = some sp ∧ p.size = sp.memorySize ∧
      loadProcessMemory proc proc time w.mem =
        .ok ({ w.mem with memSegs := holesBelow M sp.memorySize }.modify proc (.swappedIn M time),
          [.swapIn proc time []]) := by
  obtain ⟨p, sp, hfind, hsp, -, hsize, -⟩ := hI.find hproc
  have hle := (hfit sp (List.mem_of_getElem? hsp)).2
  have hdisk : isProcessMemoryInDisk p = true := by
    by_contra hres
    have := mem_residents.mpr ⟨(mem_of_find hfind).1, Bool.not_eq_true _ ▸ hres⟩
    simp [hempty] at this
  have hocc : occupyFreeMemorySegment p.size w.mem.memSegs =
      some (M, holesBelow M sp.memorySize) := by
    rw [partition_memSegs_eq_single hM hI.partition hempty, hsize]
    unfold occupyFreeMemorySegment holesBelow
    rw [if_pos hle]
    by_cases heq : sp.memorySize = M
    · rw [if_pos heq, if_pos (by dsimp only; omega)]
    · rw [if_neg heq, if_neg (by dsimp only; omega)]
  refine ⟨p, sp, hfind, hsp, hsize, ?_⟩
  simp only [loadProcessMemory, hfind, hdisk, if_true, swapInProcessMemory_fit hfind hdisk hocc,
    bind, Except.bind]

theorem alone_of_reached {M : ℤ} {w : World} (h : World.Reached fcfsPolicy sps M w) (hM : 1 ≤ M)
    (hfit : ∀ sp ∈ sps, 1 ≤ sp.memorySize ∧ sp.memorySize ≤ M) : Alone w := by
  have hlevels : 0 < fcfsPolicy.levels := show 0 < 1 by decide
  induction h with
  | refl => exact ⟨by simp [World.initial, newMemory, residents], by simp [World.initial],
      by simp [World.initial]⟩
  | @tail w v hw hstep ih =>
    have hI := inMemory_of_reached hw hM (fun sp hsp => (hfit sp hsp).1) hlevels
    have hplaced := (World.Reached.tick hw).placed hlevels
    have hempty : w.tick.running = none → residents w.mem.procMems = [] := by
      intro hidle
      apply List.eq_nil_iff_forall_not_mem.mpr
      intro p hp
      obtain ⟨r, hr, -⟩ := ih.resident p hp
      simp [hidle] at hr
    cases hstep with
    | arrive =>
      refine ⟨?_, ih.demoted, ih.evicted⟩
      simpa [addNewProcessMemoryToProcessMemoriesList, newProcessMemory, residents,
        addProcessMemoryToProcessMemoriesList, isProcessMemoryInDisk, Tick.admitOne]
        using ih.resident
    | @dispatch e queues _ _ _ _ hidle hpop _ hload =>
      obtain ⟨_, _, -, -, -, hok⟩ :=
        load_alone hI hM hfit (hempty hidle) (hplaced.popped_lt hpop) w.tick.time
      rw [hok, Except.ok.injEq, Prod.mk.injEq] at hload
      obtain ⟨rfl, rfl⟩ := hload
      refine ⟨fun p hp => ?_, fun pcb => ?_, fun pcb time victims hev => ?_⟩
      · rcases residents_modify hp with ⟨hp', -⟩ | ⟨p', -, heq, rfl⟩
        · have : p ∈ residents w.mem.procMems := hp'
          simp [hempty hidle] at this
        · exact ⟨_, rfl, heq.symm⟩
      · simpa [printSimulationStatus] using ih.demoted pcb
      · simp only [printSimulationStatus, List.mem_append, List.mem_cons, Event.swapIn.injEq,
          reduceCtorEq, List.not_mem_nil, or_false] at hev
        rcases hev with hev | ⟨-, -, hev⟩
        · exact ih.evicted pcb time victims hev
        · exact hev
    | @terminate r _ _ hr _ hrelease =>
      obtain ⟨p, hfind, hres, hok⟩ := hI.release hr
      rw [hok, Except.ok.injEq, Prod.mk.injEq] at hrelease
      obtain ⟨rfl, rfl⟩ := hrelease
      refine ⟨fun p' hp' => ?_, fun pcb => by simpa using ih.demoted pcb,
        fun pcb time victims hev => ih.evicted pcb time victims (by simpa using hev)⟩
      rcases residents_modify hp' with ⟨hp', hne⟩ | ⟨p'', -, -, rfl⟩
      · obtain ⟨r', hr', heq⟩ := ih.resident p' hp'
        rw [hr, Option.some.injEq] at hr'
        subst hr'
        exact absurd (heq.symm.trans (mem_of_find hfind).2.symm) hne
      · simp [mem_residents] at hp'
    | requeue _ _ hquantum => simp [fcfsPolicy] at hquantum
    | @keep r hr =>
      refine ⟨fun p hp => ?_, fun pcb => by simpa using ih.demoted pcb,
        fun pcb time victims hev => ih.evicted pcb time victims (by simpa using hev)⟩
      obtain ⟨r', hr', heq⟩ := ih.resident p hp
      rw [hr, Option.some.injEq] at hr'
      subst hr'
      exact ⟨r.ran, Tick.execute_running hr, heq⟩
    | idle _ _ hidle =>
      refine ⟨fun p hp => ?_, ih.demoted, ih.evicted⟩
      have : p ∈ residents w.mem.procMems := hp
      simp [hempty hidle] at this

/-! ## The runners -/

/-- **The feedback queue degenerates to first come, first served.** When no job is longer than
the first quantum, `multi_scheduler_runner` prints line for line what
`fcfs_scheduler_runner` prints, no process is demoted, and nothing is swapped out to make
room.
SOURCE: process-scheduler.c:344-437, 439-556 -/
theorem multi_degenerates_to_fcfs (q : Quanta) (sps : List ScheduledProcess) (memsize : ℤ)
    (hfit : ∀ sp ∈ sps, 1 ≤ sp.memorySize ∧ sp.memorySize ≤ memsize) (hq : 1 ≤ q.q1)
    (hjobs : ∀ sp ∈ sps, sp.jobTime ≤ q.q1) :
    ∃ s₁ s₂, Exits (fcfsSchedulerPass sps memsize) (fcfsInitialState memsize) s₁ ∧
      Exits (multiSchedulerPass q sps memsize) (multiInitialState memsize) s₂ ∧
      printed s₂ = printed s₁ ∧ (∀ pcb, Event.decreasePriority pcb ∉ s₂.trace) ∧
      ∀ pcb time victims, Event.swapIn pcb time victims ∈ s₂.trace → victims = [] := by
  obtain ⟨s₁, a, n₁, hexits₁, hdone₁, hrep₁, hw₁⟩ :=
    exits_of_fit (fcfs_runs sps memsize) (show 0 < 1 by decide) hfit
  obtain ⟨s₂, b, n₂, hexits₂, hdone₂, hrep₂, -⟩ :=
    exits_of_fit (multi_runs q sps memsize) (show 0 < minPriority by decide) hfit
  have hjobs' : ∀ proc, jobTimeOf sps proc ≤ q.q1 := by
    intro proc
    unfold jobTimeOf
    cases hsp : sps[proc]? with
    | none =>
      show (0 : ℤ) ≤ q.q1
      omega
    | some sp => exact hjobs sp (List.mem_of_getElem? hsp)
  have hmirror := mirrors_of_exits hjobs' ⟨n₁, hdone₁⟩ ⟨n₂, hdone₂⟩
  have htrace : s₂.trace = s₁.trace := by
    have hmem := hrep₂.memory
    rw [hmirror.history, hrep₁.memory, Except.ok.injEq, Prod.mk.injEq] at hmem
    exact hmem.2.symm
  have htime : s₂.time = s₁.time := by rw [hrep₁.time, hrep₂.time, hmirror.time]
  refine ⟨s₁, s₂, hexits₁, hexits₂, by simp only [printed, htrace, htime], ?_⟩
  rw [htrace]
  rcases eq_or_ne sps [] with rfl | hne
  · have hnil : s₁.trace = [] := congrArg World.trace (world_reached_nil hw₁)
    simp [hnil]
  · have halone := alone_of_reached hw₁ (one_le_of_fit hfit hne) hfit
    exact ⟨halone.demoted, halone.evicted⟩

/-- The first quantum is exactly the longest job.
SOURCE: process-scheduler.c:519-539 -/
theorem multi_degenerates_to_fcfs_tight :
    ∃ s₁ s₂, Exits (fcfsSchedulerPass [⟨0, 1, 40, 5⟩, ⟨2, 2, 90, 3⟩] 100) (fcfsInitialState 100) s₁ ∧
      Exits (multiSchedulerPass ⟨5, 1, 1⟩ [⟨0, 1, 40, 5⟩, ⟨2, 2, 90, 3⟩] 100)
        (multiInitialState 100) s₂ ∧
      printed s₂ = printed s₁ ∧ (∀ pcb, Event.decreasePriority pcb ∉ s₂.trace) ∧
      ∀ pcb time victims, Event.swapIn pcb time victims ∈ s₂.trace → victims = [] :=
  multi_degenerates_to_fcfs ⟨5, 1, 1⟩ _ 100 (by decide) (by decide) (by decide)

end Comp30023.Analysis
