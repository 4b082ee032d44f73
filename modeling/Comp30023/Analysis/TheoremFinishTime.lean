import Comp30023.Analysis.WorkConservation
import Comp30023.Analysis.RunnerMemory

/-!
# The two schedulers finish at the same time

What `WorkConservation` says about the tick scheduler, read back from the runners: the
finish times are the times of their last states, and the busy time steps are the `run`
events of their traces.
-/

set_option autoImplicit false

namespace Comp30023.Analysis

open Comp30023.Library Comp30023.Model Comp30023.Interface

variable {P : Policy} {sps : List ScheduledProcess} {a : Tick}

/-- INTERNAL: at the top of the loop the admitted processes are those that arrived in an earlier
time step.
SOURCE: process-scheduler.c:268-294 -/
theorem admitted_at_top {n : ℕ} (h : tickRun P sps n = .ok (.again a)) (hlevels : 0 < P.levels)
    (proc : ℕ) : proc < a.admitted ↔ proc < sps.length ∧ arrival sps proc < a.time := by
  cases n with
  | zero =>
    simp only [tickRun, loop, Except.ok.injEq, Pass.again.injEq] at h
    rw [← h]
    have := arrival_nonneg sps proc
    simp only [Tick.initial]
    omega
  | succ n =>
    obtain ⟨t, ht, hpass⟩ := loop_succ_again h
    have htr : Reached P sps t := tickRun_reached ht
    have hpass' : t.pass P sps = .again a := by simpa [pureBody] using hpass
    obtain ⟨b, hb, -, -, -, hwait, ⟨-, -, hp⟩ | ⟨-, -, c, hp, hc, hadm, -⟩ |
      ⟨-, c, -, hp, hc, hadm, -⟩⟩ := pass_work hlevels htr
    · simp [hpass'] at hp
    · rw [hpass', Pass.again.injEq] at hp
      subst hp
      rw [hadm, hc, admitted_iff hb hwait, Int.lt_add_one_iff]
    · rw [hpass', Pass.again.injEq] at hp
      subst hp
      rw [hadm, hc, admitted_iff hb hwait, Int.lt_add_one_iff]

theorem spi_iff_arrived {memsize : ℤ} {body : RunnerState → Except Fault (Pass RunnerState)}
    {init s : RunnerState} (h : Runs P sps memsize body init) (hlevels : 0 < P.levels)
    (hs : Reaches body init s) (proc : ℕ) :
    proc < s.spi ↔ proc < sps.length ∧ arrival sps proc < s.time := by
  obtain ⟨a, ⟨n, hn⟩, hrep, -⟩ := h.reaches hs
  rw [hrep.spi, hrep.time]
  exact admitted_at_top hn hlevels proc

/-- **The two schedulers finish at the same time.** For every file whose processes fit both
runners leave their loops at the same time. They are busy in the same time steps: at time
`t` exactly if some process that has arrived by then has not had the CPU time it needs. A
process is admitted in the time step in which it arrives.
SOURCE: process-scheduler.c:344-437, 439-556 -/
theorem runners_finish_together (q : Quanta) (sps : List ScheduledProcess) (memsize : ℤ)
    (hfit : ∀ sp ∈ sps, 1 ≤ sp.memorySize ∧ sp.memorySize ≤ memsize) :
    (∃ s₁ s₂, Exits (fcfsSchedulerPass sps memsize) (fcfsInitialState memsize) s₁ ∧
      Exits (multiSchedulerPass q sps memsize) (multiInitialState memsize) s₂ ∧
      s₁.time = s₂.time ∧
      ∀ t, (Busy (runTimes s₁.trace) t ↔ Busy (runTimes s₂.trace) t) ∧
        (Busy (runTimes s₁.trace) t ↔ SomeUnfinished sps (runTimes s₁.trace) t) ∧
        (Busy (runTimes s₂.trace) t ↔ SomeUnfinished sps (runTimes s₂.trace) t)) ∧
    (∀ s, Reaches (fcfsSchedulerPass sps memsize) (fcfsInitialState memsize) s →
      ∀ proc, proc < s.spi ↔ proc < sps.length ∧ arrival sps proc < s.time) ∧
    ∀ s, Reaches (multiSchedulerPass q sps memsize) (multiInitialState memsize) s →
      ∀ proc, proc < s.spi ↔ proc < sps.length ∧ arrival sps proc < s.time := by
  have h₁ : 0 < fcfsPolicy.levels := show 0 < 1 by decide
  have h₂ : 0 < (multiPolicy q).levels := show 0 < minPriority by decide
  refine ⟨?_, fun s hs => spi_iff_arrived (fcfs_runs sps memsize) h₁ hs,
    fun s hs => spi_iff_arrived (multi_runs q sps memsize) h₂ hs⟩
  obtain ⟨s₁, a₁, n₁, hexits₁, hdone₁, hrep₁, hw₁⟩ := exits_of_fit (fcfs_runs sps memsize) h₁ hfit
  obtain ⟨s₂, a₂, n₂, hexits₂, hdone₂, hrep₂, hw₂⟩ :=
    exits_of_fit (multi_runs q sps memsize) h₂ hfit
  have hsame := sameWork_of_exits h₁ h₂ ⟨n₁, hdone₁⟩ ⟨n₂, hdone₂⟩
  refine ⟨s₁, s₂, hexits₁, hexits₂, ?_, fun t => ?_⟩
  · rw [hrep₁.time, hrep₂.time, hsame.time]
  · rw [runTimes_of_reached hw₁, runTimes_of_reached hw₂]
    exact ⟨hsame.busy t, busy_iff_of_exits h₁ ⟨n₁, hdone₁⟩ t, busy_iff_of_exits h₂ ⟨n₂, hdone₂⟩ t⟩

/-- A file with an idle time before its last process.
SOURCE: process-scheduler.c:439-556 -/
theorem runners_finish_together_idle :
    ∃ s₁ s₂, Exits (fcfsSchedulerPass [⟨0, 1, 40, 5⟩, ⟨0, 2, 40, 3⟩, ⟨12, 3, 90, 1⟩] 100)
        (fcfsInitialState 100) s₁ ∧
      Exits (multiSchedulerPass defaultQuanta [⟨0, 1, 40, 5⟩, ⟨0, 2, 40, 3⟩, ⟨12, 3, 90, 1⟩] 100)
        (multiInitialState 100) s₂ ∧ s₁.time = s₂.time := by
  obtain ⟨s₁, s₂, hexits₁, hexits₂, htime, -⟩ := (runners_finish_together defaultQuanta
    [⟨0, 1, 40, 5⟩, ⟨0, 2, 40, 3⟩, ⟨12, 3, 90, 1⟩] 100 (by decide)).1
  exact ⟨s₁, s₂, hexits₁, hexits₂, htime⟩

end Comp30023.Analysis
