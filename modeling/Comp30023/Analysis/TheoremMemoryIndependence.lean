import Comp30023.Interface.TraceLog
import Comp30023.Analysis.RunnerMemory

/-!
# Scheduling decisions do not depend on memory

The tick scheduler reads start times and job times, and nothing else of the file
(`pass_congr`). Two files with the same schedule therefore have the same history
whatever their memory sizes are, and the printed times and ids are those of the history.
Memory could only get in the way by a fault, which is ruled out when all processes fit.
-/

set_option autoImplicit false

namespace Comp30023.Analysis

open Comp30023.Library Comp30023.Model Comp30023.Interface

/-- Everything about a scheduled process but its memory size. -/
def schedule (sp : ScheduledProcess) : ℤ × ℤ × ℤ := (sp.startTime, sp.processId, sp.jobTime)

/-- The times and process ids a runner has printed. -/
def printedSchedule (s : RunnerState) : List (ℤ × ℤ) :=
  (statusLines s.trace).map fun line => (line.time, line.processId)

variable {P : Policy} {sps₁ sps₂ : List ScheduledProcess} {memsize₁ memsize₂ : ℤ}

/-! ## The scheduler only reads the schedule -/

theorem jobTimeOf_congr (h : sps₁.map schedule = sps₂.map schedule) (proc : ℕ) :
    jobTimeOf sps₁ proc = jobTimeOf sps₂ proc := by
  have hget := congrArg (fun l => l[proc]?.map fun x : ℤ × ℤ × ℤ => x.2.2) h
  simp only [List.getElem?_map, Option.map_map] at hget
  exact congrArg (fun x : Option ℤ => x.getD 0) hget

theorem processIdOf_congr (h : sps₁.map schedule = sps₂.map schedule) (proc : ℕ) :
    processIdOf sps₁ proc = processIdOf sps₂ proc := by
  have hget := congrArg (fun l => l[proc]?.map fun x : ℤ × ℤ × ℤ => x.2.1) h
  simp only [List.getElem?_map, Option.map_map] at hget
  exact congrArg (fun x : Option ℤ => x.getD 0) hget

theorem admitFrom_congr {rest₁ rest₂ : List ScheduledProcess}
    (h : rest₁.map schedule = rest₂.map schedule) (a : Tick) :
    a.admitFrom rest₁ = a.admitFrom rest₂ := by
  induction rest₁ generalizing rest₂ a with
  | nil =>
    rw [List.map_nil, eq_comm, List.map_eq_nil_iff] at h
    rw [h]
  | cons sp₁ rest₁ ih =>
    cases rest₂ with
    | nil => simp at h
    | cons sp₂ rest₂ =>
      rw [List.map_cons, List.map_cons, List.cons.injEq] at h
      have hstart : sp₁.startTime = sp₂.startTime := congrArg Prod.fst h.1
      unfold Tick.admitFrom
      rw [hstart, ih h.2]

/-- INTERNAL: one time step depends on the schedule only. -/
theorem pass_congr (h : sps₁.map schedule = sps₂.map schedule) (a : Tick) :
    a.pass P sps₁ = a.pass P sps₂ := by
  have hlen : sps₁.length = sps₂.length := by simpa using congrArg List.length h
  have harrive : a.arrive sps₁ = a.arrive sps₂ := by
    unfold Tick.arrive
    exact admitFrom_congr (by rw [List.map_drop, List.map_drop, h]) a
  have hdispatch : ∀ b : Tick, b.dispatch sps₁ = b.dispatch sps₂ := by
    intro b
    unfold Tick.dispatch
    simp only [List.getElem?_eq_none_iff, hlen]
  have hfinish : ∀ b : Tick, b.finish P sps₁ = b.finish P sps₂ := by
    intro b
    unfold Tick.finish
    simp only [jobTimeOf_congr h]
  unfold Tick.pass
  simp only [harrive, hdispatch, hfinish]

/-! ## Two runs -/

/-- INTERNAL: what a runner whose processes fit prints is read off the history of the scheduler.
SOURCE: process-scheduler.c:391-395, 495-499 -/
theorem printedSchedule_of_fit {sps : List ScheduledProcess} {memsize : ℤ}
    {body : RunnerState → Except Fault (Pass RunnerState)} {init : RunnerState}
    (h : Runs P sps memsize body init) (hlevels : 0 < P.levels)
    (hfit : ∀ sp ∈ sps, 1 ≤ sp.memorySize ∧ sp.memorySize ≤ memsize) :
    ∃ s a, Exits body init s ∧ Exits (pureBody (Tick.pass P sps)) (Tick.initial P) a ∧
      printedSchedule s = (dispatches a.history).map (fun x => (x.1, processIdOf sps x.2)) ∧
      s.time = a.time := by
  obtain ⟨s, a, n, hexits, hdone, hrep, hw⟩ := exits_of_fit h hlevels hfit
  refine ⟨s, a, hexits, ⟨n, hdone⟩, ?_, hrep.time⟩
  unfold printedSchedule
  rw [statusLines_eq_statuses, statuses_of_reached hw, List.map_map]
  rfl

/-- INTERNAL: two runners with one policy and one schedule print the same times and ids. -/
theorem printedSchedule_eq
    {body₁ body₂ : RunnerState → Except Fault (Pass RunnerState)} {init₁ init₂ : RunnerState}
    (h₁ : Runs P sps₁ memsize₁ body₁ init₁) (h₂ : Runs P sps₂ memsize₂ body₂ init₂)
    (hlevels : 0 < P.levels) (hsame : sps₁.map schedule = sps₂.map schedule)
    (hfit₁ : ∀ sp ∈ sps₁, 1 ≤ sp.memorySize ∧ sp.memorySize ≤ memsize₁)
    (hfit₂ : ∀ sp ∈ sps₂, 1 ≤ sp.memorySize ∧ sp.memorySize ≤ memsize₂) :
    ∃ s₁ s₂, Exits body₁ init₁ s₁ ∧ Exits body₂ init₂ s₂ ∧
      printedSchedule s₁ = printedSchedule s₂ ∧ s₁.time = s₂.time := by
  obtain ⟨s₁, a₁, hexits₁, hdone₁, hprint₁, htime₁⟩ := printedSchedule_of_fit h₁ hlevels hfit₁
  obtain ⟨s₂, a₂, hexits₂, hdone₂, hprint₂, htime₂⟩ := printedSchedule_of_fit h₂ hlevels hfit₂
  rw [show Tick.pass P sps₁ = Tick.pass P sps₂ from funext (pass_congr hsame)] at hdone₁
  have heq : a₁ = a₂ := hdone₁.unique hdone₂
  subst heq
  refine ⟨s₁, s₂, hexits₁, hexits₂, ?_, htime₁.trans htime₂.symm⟩
  rw [hprint₁, hprint₂]
  simp only [processIdOf_congr hsame]

/-- **Scheduling is independent of memory.** Two files with the same start times, ids and job
times lead to the same printed times and ids and the same finish time, with either runner,
whatever the memory sizes are and however large main memory is, as long as all processes
fit.
SOURCE: process-scheduler.c:182-242, 378-424, 479-540 -/
theorem schedule_independent_of_memory (q : Quanta) (sps₁ sps₂ : List ScheduledProcess)
    (memsize₁ memsize₂ : ℤ) (hsame : sps₁.map schedule = sps₂.map schedule)
    (hfit₁ : ∀ sp ∈ sps₁, 1 ≤ sp.memorySize ∧ sp.memorySize ≤ memsize₁)
    (hfit₂ : ∀ sp ∈ sps₂, 1 ≤ sp.memorySize ∧ sp.memorySize ≤ memsize₂) :
    (∃ s₁ s₂, Exits (multiSchedulerPass q sps₁ memsize₁) (multiInitialState memsize₁) s₁ ∧
      Exits (multiSchedulerPass q sps₂ memsize₂) (multiInitialState memsize₂) s₂ ∧
      printedSchedule s₁ = printedSchedule s₂ ∧ s₁.time = s₂.time) ∧
    ∃ s₁ s₂, Exits (fcfsSchedulerPass sps₁ memsize₁) (fcfsInitialState memsize₁) s₁ ∧
      Exits (fcfsSchedulerPass sps₂ memsize₂) (fcfsInitialState memsize₂) s₂ ∧
      printedSchedule s₁ = printedSchedule s₂ ∧ s₁.time = s₂.time :=
  ⟨printedSchedule_eq (multi_runs q sps₁ memsize₁) (multi_runs q sps₂ memsize₂)
      (show 0 < minPriority by decide) hsame hfit₁ hfit₂,
    printedSchedule_eq (fcfs_runs sps₁ memsize₁) (fcfs_runs sps₂ memsize₂) (show 0 < 1 by decide)
      hsame hfit₁ hfit₂⟩

/-- One schedule, once with room for everything and once with an eviction at every dispatch.
SOURCE: process-scheduler.c:182-242 -/
theorem schedule_independent_of_memory_two :
    (∃ s₁ s₂, Exits (multiSchedulerPass defaultQuanta [⟨0, 1, 10, 3⟩, ⟨1, 2, 10, 4⟩] 100)
        (multiInitialState 100) s₁ ∧
      Exits (multiSchedulerPass defaultQuanta [⟨0, 1, 7, 3⟩, ⟨1, 2, 8, 4⟩] 8)
        (multiInitialState 8) s₂ ∧
      printedSchedule s₁ = printedSchedule s₂ ∧ s₁.time = s₂.time) ∧
    ∃ s₁ s₂, Exits (fcfsSchedulerPass [⟨0, 1, 10, 3⟩, ⟨1, 2, 10, 4⟩] 100)
        (fcfsInitialState 100) s₁ ∧
      Exits (fcfsSchedulerPass [⟨0, 1, 7, 3⟩, ⟨1, 2, 8, 4⟩] 8) (fcfsInitialState 8) s₂ ∧
      printedSchedule s₁ = printedSchedule s₂ ∧ s₁.time = s₂.time :=
  schedule_independent_of_memory defaultQuanta _ _ 100 8 (by decide) (by decide) (by decide)

end Comp30023.Analysis
