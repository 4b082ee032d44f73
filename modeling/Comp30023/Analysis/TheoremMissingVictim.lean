import Comp30023.Analysis.TheoremTermination

/-!
# When there is nothing to swap out

Neither the parser, nor the runners, nor `swap_in_process_memory` compares the size of a
process with the size of main memory. Loading a process that does not fit swaps out one
process memory after the other until none is left, and then
`swap_out_process_memory` reads a pointer it never set. With positive sizes this happens
in a run exactly when some process of the file is larger than main memory.
-/

set_option autoImplicit false

namespace Comp30023.Analysis

open Comp30023.Library Comp30023.Model Comp30023.Interface

/-- No run of either runner calls `swap_out_process_memory` when every process memory is in
disk. -/
def NeverMissesVictim (sps : List ScheduledProcess) (memsize : ℤ) : Prop :=
  ¬ Faults (fcfsSchedulerPass sps memsize) (fcfsInitialState memsize) .noVictim ∧
    ∀ q, ¬ Faults (multiSchedulerPass q sps memsize) (multiInitialState memsize) .noVictim

/-- The fault is what its name says: it is raised exactly in a state where every process
memory is in disk.
SOURCE: memory-management.c:405-456 -/
theorem swapOutProcessMemory_noVictim (m : Memory) :
    swapOutProcessMemory m = .error .noVictim ↔
      ∀ p ∈ m.procMems, isProcessMemoryInDisk p = true := by
  unfold swapOutProcessMemory
  cases hv : findSwapOut m.procMems with
  | none =>
    have hnone := findSwapOut_eq_none.mp hv
    simpa [residents] using hnone
  | some v =>
    obtain ⟨hmem, hres⟩ := mem_residents.mp (findSwapOut_mem hv)
    simp only [reduceCtorEq, false_iff, not_forall]
    exact ⟨v, hmem, by simp [hres]⟩

variable {P : Policy} {sps : List ScheduledProcess} {memsize : ℤ}

/-- INTERNAL: a runner misses a process memory to swap out exactly when some process does not
fit: otherwise it gets to its end, where every process has been in main memory. -/
theorem faults_noVictim_iff {body : RunnerState → Except Fault (Pass RunnerState)}
    {init : RunnerState} (h : Runs P sps memsize body init) (hlevels : 0 < P.levels)
    (hM : 1 ≤ memsize) (hpos : ∀ sp ∈ sps, 1 ≤ sp.memorySize) :
    Faults body init .noVictim ↔ ∃ sp ∈ sps, memsize < sp.memorySize := by
  constructor
  · intro hf
    obtain ⟨a, ha, hfault⟩ := h.faults hf
    exact (fault_of_reached ha hM hpos hlevels hfault).2
  · rintro ⟨sp, hsp, hlarge⟩
    rcases h.exits_or_faults hlevels with ⟨s, a, n, -, hdone, -, hw⟩ | ⟨e, a, hf, ha, hfault⟩
    · exfalso
      obtain ⟨-, -, -, hterm⟩ := tickRun_done hdone hlevels
      have hI := inMemory_of_reached hw hM hpos hlevels
      obtain ⟨i, hi⟩ := List.mem_iff_getElem?.mp hsp
      have hlt := (List.getElem?_eq_some_iff.mp hi).1
      obtain ⟨e, he, heq⟩ := List.mem_map.mp (hterm.mem_iff.mpr (List.mem_range.mpr hlt))
      obtain ⟨p, hfind, -, hsize⟩ := hI.terminated e he
      have hproc : e.proc ∈ a.procs := by
        unfold Tick.procs
        exact List.mem_append_right _ (List.mem_append_right _ (List.mem_map_of_mem he))
      obtain ⟨p', sp', hfind', hsp', -, hsize', -⟩ :=
        hI.find (((World.Reached.tick hw).placed hlevels).lt hproc)
      rw [hfind, Option.some.injEq] at hfind'
      rw [heq, hi, Option.some.injEq] at hsp'
      subst hfind' hsp'
      omega
    · rw [(fault_of_reached ha hM hpos hlevels hfault).1] at hf
      exact hf

/-- **When a victim is always there.** If every size is between one and the size of main
memory, no run of either runner ever asks for a process memory to swap out when there is
none; and among the files with positive sizes those are the only ones.
SOURCE: memory-management.c:351-456 -/
theorem never_misses_victim (sps : List ScheduledProcess) (memsize : ℤ) (hM : 1 ≤ memsize) :
    ((∀ sp ∈ sps, 1 ≤ sp.memorySize ∧ sp.memorySize ≤ memsize) →
      NeverMissesVictim sps memsize) ∧
    ((∀ sp ∈ sps, 1 ≤ sp.memorySize) →
      (¬ Faults (fcfsSchedulerPass sps memsize) (fcfsInitialState memsize) .noVictim ↔
        ∀ sp ∈ sps, sp.memorySize ≤ memsize) ∧
      ∀ q, (¬ Faults (multiSchedulerPass q sps memsize) (multiInitialState memsize) .noVictim ↔
        ∀ sp ∈ sps, sp.memorySize ≤ memsize)) := by
  have hexact : (∀ sp ∈ sps, 1 ≤ sp.memorySize) →
      (¬ Faults (fcfsSchedulerPass sps memsize) (fcfsInitialState memsize) .noVictim ↔
        ∀ sp ∈ sps, sp.memorySize ≤ memsize) ∧
      ∀ q, (¬ Faults (multiSchedulerPass q sps memsize) (multiInitialState memsize) .noVictim ↔
        ∀ sp ∈ sps, sp.memorySize ≤ memsize) := by
    intro hpos
    refine ⟨?_, fun q => ?_⟩
    · rw [faults_noVictim_iff (fcfs_runs sps memsize) (show 0 < 1 by decide) hM hpos]
      push Not
      exact Iff.rfl
    · rw [faults_noVictim_iff (multi_runs q sps memsize) (show 0 < minPriority by decide) hM hpos]
      push Not
      exact Iff.rfl
  refine ⟨fun hfit => ?_, hexact⟩
  obtain ⟨hfcfs, hmulti⟩ := hexact fun sp hsp => (hfit sp hsp).1
  have hle : ∀ sp ∈ sps, sp.memorySize ≤ memsize := by
    intro sp hsp
    exact (hfit sp hsp).2
  exact ⟨hfcfs.mpr hle, fun q => (hmulti q).mpr hle⟩

/-- A file whose processes fit, one of them exactly.
SOURCE: memory-management.c:351-456 -/
theorem never_misses_victim_fitting :
    NeverMissesVictim [⟨0, 1, 60, 3⟩, ⟨0, 2, 100, 1⟩] 100 :=
  (never_misses_victim [⟨0, 1, 60, 3⟩, ⟨0, 2, 100, 1⟩] 100 (by decide)).1 (by decide)

/-- The file `0 1 200 5` with a main memory of 100: the first time step loads a process that
does not fit, in an empty main memory.
SOURCE: memory-management.c:399, 446 -/
theorem misses_victim_oversize :
    ¬ ∀ (sps : List ScheduledProcess) (memsize : ℤ), 1 ≤ memsize →
      NeverMissesVictim sps memsize := by
  intro h
  have hnever := h [⟨0, 1, 200, 5⟩] 100 (by decide)
  exact hnever.1 ⟨1, by decide⟩

end Comp30023.Analysis
