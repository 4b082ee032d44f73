import Mathlib.Algebra.BigOperators.Ring.Finset
import Comp30023.Analysis.Holes
import Comp30023.Analysis.TheoremFcfsTimetable
import Comp30023.Analysis.TheoremMemoryPartition
import Comp30023.Interface.RunnerMoments

/-!
# The numbers of a status line

`print_simulation_status` counts the elements of two linked lists and adds up the sizes of
one of them. What it says about the layout of main memory is exact, because the free list
is the list of the holes and the process memories nowhere overlap: the number of holes is
the number of maximal runs of addresses without a process, the used size is the number of
addresses with one, and there is at most one hole more than there are processes.
-/

set_option autoImplicit false

namespace Comp30023.Analysis

open Comp30023.Library Comp30023.Model Comp30023.Interface

/-- The addresses of a main memory of size `M` that one of the process memories occupies. -/
noncomputable def occupiedAddresses (M : ℤ) (procMems : List ProcessMemory) : Finset ℤ :=
  {x ∈ Finset.Ioc 0 M | ∃ p ∈ procMems, x ∈ (processSpan p).points}

/-- What is true of main memory in the state `s` when the status line is printed about the
process control block. -/
structure StatusExact (memsize : ℤ) (s : RunnerState) (pcb : ℕ) (line : StatusLine) : Prop where
  /-- the printed process is in main memory -/
  resident : ∃ b p, s.pcbs[pcb]? = some b ∧ line.processId = b.processId ∧
    s.mem.find b.processMemory = some p ∧ isProcessMemoryInDisk p = false
  numprocesses : line.numprocesses = (residents s.mem.procMems).length
  one_le_numprocesses : 1 ≤ line.numprocesses
  numholes : line.numholes = {h | Hole memsize (residents s.mem.procMems) h}.ncard
  numholes_le : line.numholes ≤ line.numprocesses + 1
  memusage : line.memusage =
    ⌈(100 * (occupiedAddresses memsize (residents s.mem.procMems)).card : ℚ) / memsize⌉
  memusage_bounds : 1 ≤ line.memusage ∧ line.memusage ≤ 100
  full : line.numholes = 0 → line.memusage = 100

variable {M : ℤ} {m : Memory}

/-- The sizes of the process memories in main memory add up to the number of addresses they
occupy.
SOURCE: memory-management.c:580-600 -/
theorem card_occupiedAddresses (hP : Partition M m) :
    ((occupiedAddresses M (residents m.procMems)).card : ℤ) =
      getProcessMemoriesListNotInDiskSize m.procMems := by
  have hbounds : ∀ s ∈ residentSpans m, 0 ≤ s.len ∧ 0 ≤ s.bottom ∧ s.top ≤ M := by
    intro s hs
    obtain ⟨p, hp, rfl⟩ := List.mem_map.mp hs
    obtain ⟨hlo, hhi, hpos⟩ := partition_resident_bounds hP hp
    exact ⟨le_trans (by omega) hpos, hlo, hhi⟩
  have hdepth : ∀ x ∈ Finset.Ioc 0 M, (depth (residentSpans m) x : ℤ) =
      if ∃ p ∈ residents m.procMems, x ∈ (processSpan p).points then 1 else 0 := by
    intro x _
    have hex := hP.exact x
    have hpos : 0 < depth (residentSpans m) x ↔
        ∃ p ∈ residents m.procMems, x ∈ (processSpan p).points := by
      rw [depth_pos_iff]
      simp [residentSpans]
    by_cases hx : ∃ p ∈ residents m.procMems, x ∈ (processSpan p).points
    · rw [if_pos hx]
      have := hpos.mpr hx
      split at hex <;> omega
    · rw [if_neg hx]
      have := mt hpos.mp hx
      omega
  have hsum := sum_depth hbounds
  rw [Finset.sum_congr rfl hdepth] at hsum
  unfold occupiedAddresses
  rw [Finset.natCast_card_filter, hsum]
  simp only [residentSpans, List.map_map]
  rfl

/-- INTERNAL: a percentage of a positive part of main memory, rounded up. -/
theorem ceil_percentage_bounds {used : ℤ} (hused : 1 ≤ used) (hle : used ≤ M) :
    1 ≤ ⌈(100 * used : ℚ) / M⌉ ∧ ⌈(100 * used : ℚ) / M⌉ ≤ 100 := by
  have hM : (0 : ℚ) < M := by exact_mod_cast (by omega : 0 < M)
  have hpos : (0 : ℚ) < used := by exact_mod_cast (by omega : 0 < used)
  constructor
  · apply Int.one_le_ceil_iff.mpr
    positivity
  · rw [Int.ceil_le, div_le_iff₀ hM]
    have : (used : ℚ) ≤ M := by exact_mod_cast hle
    push_cast
    linarith

/-- INTERNAL: the used size of a main memory with a process in it. -/
theorem notInDiskSize_bounds (hP : Partition M m) {p : ProcessMemory}
    (hp : p ∈ residents m.procMems) :
    1 ≤ getProcessMemoriesListNotInDiskSize m.procMems ∧
      getProcessMemoriesListNotInDiskSize m.procMems ≤ M := by
  obtain ⟨hlo, hhi, hpos⟩ := partition_resident_bounds hP hp
  have hsizes : ∀ x ∈ (residents m.procMems).map ProcessMemory.size, (0 : ℤ) ≤ x := by
    intro x hx
    obtain ⟨q, hq, rfl⟩ := List.mem_map.mp hx
    exact le_trans (by omega) (hP.sizes q (mem_residents.mp hq).1)
  have hle : p.size ≤ getProcessMemoriesListNotInDiskSize m.procMems :=
    List.single_le_sum hsizes _ (List.mem_map_of_mem hp)
  have hfree : 0 ≤ (m.memSegs.map FreeMemorySegment.size).sum := by
    apply List.sum_nonneg
    intro x hx
    obtain ⟨t, ht, rfl⟩ := List.mem_map.mp hx
    exact le_trans (by omega) (partition_segment_bounds hP ht).2.2
  have htotal := partition_total (by unfold getProcessMemoryEndAddress at hlo; omega) hP
  omega

/-- The line that is printed for a process in a partitioned main memory is exact.
SOURCE: process-scheduler.c:249-266 -/
theorem statusExact_of_partition {s : RunnerState} (hP : Partition M s.mem) {pcb : ℕ}
    {b : ProcessControlBlock} {p : ProcessMemory} (hb : s.pcbs[pcb]? = some b)
    (hfind : s.mem.find b.processMemory = some p) (hres : isProcessMemoryInDisk p = false)
    {time : ℤ} {line : StatusLine}
    (hline : Event.status pcb line = printSimulationStatus time pcb b.processId s.mem M) :
    StatusExact M s pcb line := by
  have hp : p ∈ residents s.mem.procMems := mem_residents.mpr ⟨(mem_of_find hfind).1, hres⟩
  obtain ⟨hused, hle⟩ := notInDiskSize_bounds hP hp
  have hM : 1 ≤ M := by omega
  have hcount := card_occupiedAddresses hP
  have husage : ⌈(100 * (occupiedAddresses M (residents s.mem.procMems)).card : ℚ) / M⌉ =
      memUsageProportion (getProcessMemoriesListNotInDiskSize s.mem.procMems) M := by
    rw [memUsageProportion_eq_ceil (by omega) hM, ← hcount]
    push_cast
    rfl
  have hbounds := ceil_percentage_bounds hused hle
  rw [← memUsageProportion_eq_ceil (by omega) hM] at hbounds
  simp only [printSimulationStatus, Event.status.injEq, true_and] at hline
  subst hline
  refine ⟨⟨b, p, hb, rfl, hfind, hres⟩, rfl, ?_, ?_, ?_, husage.symm, hbounds, ?_⟩
  · show 1 ≤ ((residents s.mem.procMems).length : ℤ)
    have := List.length_pos_of_mem hp
    omega
  · rw [ncard_holes hP]
    rfl
  · show (s.mem.memSegs.length : ℤ) ≤ ((residents s.mem.procMems).length : ℤ) + 1
    have := memSegs_length_le hP
    omega
  · intro hnone
    have hnil : s.mem.memSegs = [] := by
      have : (s.mem.memSegs.length : ℤ) = 0 := hnone
      exact List.length_eq_zero_iff.mp (by omega)
    have htotal := partition_total hM hP
    rw [hnil, List.map_nil, List.sum_nil, Int.zero_add] at htotal
    have hpos : (M : ℚ) ≠ 0 := by exact_mod_cast (by omega : M ≠ 0)
    show memUsageProportion (getProcessMemoriesListNotInDiskSize s.mem.procMems) M = 100
    rw [memUsageProportion_eq_ceil (by omega) hM, htotal, mul_div_assoc, div_self hpos, mul_one]
    exact_mod_cast Int.ceil_intCast (100 : ℤ)

/-! ## The lines of a run -/

variable {R : Runner} {sps : List ScheduledProcess} {memsize : ℤ}

/-- INTERNAL: what is known about main memory when a status line is printed.
SOURCE: process-scheduler.c:391-395, 495-499 -/
theorem partition_of_prints (hfit : ∀ sp ∈ sps, 1 ≤ sp.memorySize ∧ sp.memorySize ≤ memsize)
    {loaded : RunnerState} {pcb : ℕ} {line : StatusLine}
    (h : R.Prints sps memsize loaded pcb line) :
    ∃ b p time, Partition memsize loaded.mem ∧ loaded.pcbs[pcb]? = some b ∧
      loaded.mem.find b.processMemory = some p ∧ isProcessMemoryInDisk p = false ∧
      Event.status pcb line =
        printSimulationStatus time pcb b.processId loaded.mem memsize := by
  obtain ⟨s, events, hload, htrace, hline⟩ := h
  obtain ⟨a, b, -, ⟨hrep, hw⟩, ⟨-, -, hsame⟩ |
    ⟨e, queues, sp, swaps, -, -, rfl, hsp, hmem, hprint⟩⟩ := hload.world
  · rw [hsame, List.self_eq_append_right] at htrace
    rw [htrace] at hline
    simp at hline
  · have hM := one_le_of_fit hfit (List.ne_nil_of_mem (List.mem_of_getElem? hsp))
    have hI := inMemory_of_reached hw hM (fun sp hsp => (hfit sp hsp).1) R.levels_pos
    obtain ⟨p, hfind, hres⟩ := hI.running { e with burst := 0 } rfl
    obtain ⟨sp', hsp', hblock⟩ := hrep.running_block (r := { e with burst := 0 }) rfl
    rw [hsp, Option.some.injEq] at hsp'
    subst hsp'
    have hevent : Event.status pcb line =
        printSimulationStatus a.time e.proc sp.processId loaded.mem memsize := by
      rw [hprint, List.append_cancel_left_eq] at htrace
      rw [← htrace, List.mem_append] at hline
      rcases hline with hline | hline
      · rcases loadProcessMemory_events hmem with rfl | ⟨victims, rfl⟩ <;> simp at hline
      · exact List.mem_singleton.mp hline
    have hpcb : pcb = e.proc := by
      simp only [printSimulationStatus, Event.status.injEq] at hevent
      exact hevent.1
    subst hpcb
    exact ⟨_, p, a.time, hI.partition, hblock, hfind, hres, hevent⟩

/-- **Status lines are exact.** For every file whose processes fit into main memory and either
runner: every status line of a run was printed in the loading stage of one of its passes; and
when it was printed, its process was in main memory, its number of processes was the number
of processes in main memory, its number of holes the number of maximal runs of addresses that
none of them occupied, at most one more than processes, and its memory usage the percentage
of occupied addresses rounded up, between 1 and 100 and 100 if there was no hole.
SOURCE: process-scheduler.c:249-266 -/
theorem status_lines_exact (R : Runner) (sps : List ScheduledProcess) (memsize : ℤ)
    (hfit : ∀ sp ∈ sps, 1 ≤ sp.memorySize ∧ sp.memorySize ≤ memsize) :
    (∀ s, R.Moment sps memsize s → ∀ pcb line, Event.status pcb line ∈ s.trace →
      ∃ loaded, R.Prints sps memsize loaded pcb line) ∧
    ∀ loaded pcb line, R.Prints sps memsize loaded pcb line →
      StatusExact memsize loaded pcb line := by
  constructor
  · intro s hs pcb line hline
    exact hs.printed hline
  · intro loaded pcb line h
    obtain ⟨b, p, time, hP, hb, hfind, hres, hevent⟩ := partition_of_prints hfit h
    exact statusExact_of_partition hP hb hfind hres hevent

/-- A file with one process that takes all of main memory but one address.
SOURCE: process-scheduler.c:249-266 -/
theorem status_lines_exact_one :
    ∃ loaded, (Runner.multi defaultQuanta).Prints [⟨0, 7, 99, 1⟩] 100 loaded 0
        ⟨0, 7, 1, 1, 99⟩ ∧ StatusExact 100 loaded 0 ⟨0, 7, 1, 1, 99⟩ := by
  have hprints : ∃ loaded, (Runner.multi defaultQuanta).Prints [⟨0, 7, 99, 1⟩] 100 loaded 0
      ⟨0, 7, 1, 1, 99⟩ :=
    ⟨_, _, [.swapIn 0 0 [], .status 0 ⟨0, 7, 1, 1, 99⟩], ⟨⟨_, ⟨0, rfl⟩, rfl⟩, rfl⟩, rfl, by simp⟩
  obtain ⟨loaded, hloaded⟩ := hprints
  exact ⟨loaded, hloaded,
    (status_lines_exact (.multi defaultQuanta) [⟨0, 7, 99, 1⟩] 100 (by decide)).2 _ _ _ hloaded⟩

end Comp30023.Analysis
