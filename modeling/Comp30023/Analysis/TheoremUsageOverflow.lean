import Comp30023.Analysis.TheoremStatusLines
import Comp30023.Model.MachineInt

/-!
# When the usage report overflows

`print_simulation_status` multiplies the used size by 100 in an `int` before it divides by
the size of main memory. The sum of the sizes itself stays in range, because the process
memories in main memory do not overlap. The product leaves it as soon as more than
21474836 addresses are in use.
-/

set_option autoImplicit false

namespace Comp30023.Analysis

open Comp30023.Library Comp30023.Model Comp30023.Interface

/-- No operation of the report leaves the range of an `int`, and what is printed is the
percentage of `memsize` that is in use, rounded up. -/
def UsageReported (memsize : ℤ) (m : Memory) : Prop :=
  (∀ x ∈ memusageValues m.procMems memsize, IsInt32 x) ∧
    memusage32 m.procMems memsize =
      ⌈(100 * (occupiedAddresses memsize (residents m.procMems)).card : ℚ) / memsize⌉

theorem toInt32_of_isInt32 {x : ℤ} (h : IsInt32 x) : toInt32 x = x := by
  unfold IsInt32 at h
  unfold toInt32
  omega

/-- INTERNAL: sums that end in the range of an `int` are in it all the way and exact.
SOURCE: memory-management.c:580-600 -/
theorem notInDiskSizeLoop32_run {l : List ProcessMemory} (size : ℤ) (log : List ℤ)
    (hsize : 0 ≤ size) (hpos : ∀ p ∈ l, 0 ≤ p.size)
    (hbound : size + getProcessMemoriesListNotInDiskSize l ≤ 2147483647) :
    ∃ sums, (notInDiskSizeLoop32 size l).run log =
        (size + getProcessMemoriesListNotInDiskSize l, log ++ sums) ∧
      ∀ x ∈ sums, IsInt32 x := by
  induction l generalizing size log with
  | nil =>
    refine ⟨[], ?_, by simp⟩
    show (size, log) = (size + 0, log ++ [])
    simp
  | cons p l ih =>
    have hrest : ∀ q ∈ l, 0 ≤ q.size := by
      intro q hq
      exact hpos q (List.mem_cons_of_mem _ hq)
    unfold notInDiskSizeLoop32
    by_cases hdisk : isProcessMemoryInDisk p = true
    · have hsame : getProcessMemoriesListNotInDiskSize (p :: l) =
          getProcessMemoriesListNotInDiskSize l := by
        simp [getProcessMemoriesListNotInDiskSize, hdisk]
      rw [hsame] at hbound
      rw [if_pos hdisk, hsame]
      exact ih size log hsize hrest hbound
    · have hmore : getProcessMemoriesListNotInDiskSize (p :: l) =
          p.size + getProcessMemoriesListNotInDiskSize l := by
        simp [getProcessMemoriesListNotInDiskSize, hdisk]
      have hp := hpos p List.mem_cons_self
      have hnonneg : 0 ≤ getProcessMemoriesListNotInDiskSize l := by
        apply List.sum_nonneg
        intro x hx
        obtain ⟨q, hq, rfl⟩ := List.mem_map.mp hx
        exact hrest q (List.mem_of_mem_filter hq)
      have hin : IsInt32 (size + p.size) := by
        unfold IsInt32
        omega
      obtain ⟨sums, hrun, hsums⟩ := ih (size + p.size) (log ++ [size + p.size]) (by omega) hrest
        (by omega)
      rw [if_neg hdisk]
      refine ⟨(size + p.size) :: sums, ?_, ?_⟩
      · show (notInDiskSizeLoop32 (toInt32 (size + p.size)) l).run (log ++ [size + p.size]) = _
        rw [toInt32_of_isInt32 hin, hrun, hmore, Int.add_assoc, List.append_assoc]
        rfl
      · intro x hx
        rcases List.mem_cons.mp hx with rfl | hx
        · exact hin
        · exact hsums x hx

/-- INTERNAL: the four operations after the sum.
SOURCE: process-scheduler.c:253-256 -/
theorem memUsageProportion32_run {l : List ProcessMemory} {used : ℤ} {sums : List ℤ} (M : ℤ)
    (h : (notInDiskSizeLoop32 0 l).run [] = (used, sums)) :
    let product := toInt32 (100 * used)
    let quotient := toInt32 (product.tdiv M)
    let remainder := toInt32 (product.tmod M)
    let total := quotient + if remainder ≠ 0 then 1 else 0
    memusageValues l M = sums ++ [100 * used, product.tdiv M, product.tmod M, total] ∧
      memusage32 l M = toInt32 total := by
  intro product quotient remainder total
  have hrun : (memUsageProportion32 l M).run [] =
      (toInt32 total, sums ++ [100 * used, product.tdiv M, product.tmod M, total]) := by
    have hstep : (memUsageProportion32 l M).run [] =
        (do
          let memusageproportion ← int (100 * used)
          let quotient ← int (memusageproportion.tdiv M)
          let remainder ← int (memusageproportion.tmod M)
          int (quotient + if remainder ≠ 0 then 1 else 0) : StateM (List ℤ) ℤ).run sums := by
      unfold memUsageProportion32 getProcessMemoriesListNotInDiskSize32
      rw [StateT.run_bind, h]
      rfl
    rw [hstep]
    show (toInt32 total, (((sums ++ [_]) ++ [_]) ++ [_]) ++ [_]) = _
    simp only [List.append_assoc, List.cons_append, List.nil_append]
    rfl
  unfold memusageValues memusage32
  rw [hrun]
  exact ⟨rfl, rfl⟩

/-- Once the product of the memory usage fits into an `int`, so does every later value. -/
theorem isInt32_usage {used M : ℤ} (hused : 0 ≤ used) (hM : 1 ≤ M)
    (hproduct : IsInt32 (100 * used)) :
    IsInt32 ((100 * used).tdiv M) ∧ IsInt32 ((100 * used).tmod M) ∧
      IsInt32 (memUsageProportion used M) := by
  unfold IsInt32 at hproduct
  have hbounds : 0 ≤ (100 * used).tdiv M ∧ (100 * used).tdiv M ≤ 100 * used := by
    rw [Int.tdiv_eq_ediv_of_nonneg (by omega)]
    exact ⟨Int.ediv_nonneg (by omega) (by omega), Int.ediv_le_self M (by omega)⟩
  have hremainder : 0 ≤ (100 * used).tmod M ∧ (100 * used).tmod M ≤ 100 * used := by
    rw [Int.tmod_eq_emod_of_nonneg (by omega)]
    have hsplit := Int.emod_add_mul_ediv (100 * used) M
    have hmultiple : 0 ≤ M * (100 * used / M) :=
      mul_nonneg (by omega) (Int.ediv_nonneg (by omega) (by omega))
    exact ⟨Int.emod_nonneg _ (by omega), by linarith⟩
  refine ⟨?_, ?_, ?_⟩
  · unfold IsInt32
    omega
  · unfold IsInt32
    omega
  · unfold IsInt32 memUsageProportion
    split_ifs <;> omega

/-- The report of a partitioned main memory is right exactly when a hundred times the used size
is still an `int`.
SOURCE: memory-management.c:580-600, process-scheduler.c:253-256 -/
theorem usageReported_iff {M : ℤ} {m : Memory} (hP : Partition M m) (hM : 1 ≤ M)
    (hint : M ≤ 2147483647) :
    UsageReported M m ↔ (occupiedAddresses M (residents m.procMems)).card ≤ 21474836 := by
  have hcard := card_occupiedAddresses hP
  have hle : getProcessMemoriesListNotInDiskSize m.procMems ≤ M := by
    rw [← hcard]
    have := Finset.card_filter_le (Finset.Ioc 0 M)
      fun x => ∃ p ∈ residents m.procMems, x ∈ (processSpan p).points
    unfold occupiedAddresses
    rw [Int.card_Ioc] at this
    omega
  obtain ⟨sums, hrun, hsums⟩ := notInDiskSizeLoop32_run (l := m.procMems) 0 [] le_rfl
    (fun p hp => le_trans (by omega) (hP.sizes p hp)) (by omega)
  rw [List.nil_append, Int.zero_add] at hrun
  obtain ⟨hvalues, hprinted⟩ := memUsageProportion32_run M hrun
  constructor
  · rintro ⟨hall, -⟩
    have hproduct := hall (100 * getProcessMemoriesListNotInDiskSize m.procMems)
      (by rw [hvalues]; simp)
    unfold IsInt32 at hproduct
    omega
  · intro hfew
    generalize hused : getProcessMemoriesListNotInDiskSize m.procMems = used at *
    have hproduct : IsInt32 (100 * used) := by
      unfold IsInt32
      omega
    obtain ⟨hquotient, hremainder, htotal⟩ := isInt32_usage (by omega) hM hproduct
    rw [toInt32_of_isInt32 hproduct, toInt32_of_isInt32 hquotient,
      toInt32_of_isInt32 hremainder] at hvalues hprinted
    refine ⟨?_, ?_⟩
    · rw [hvalues]
      intro x hx
      rcases List.mem_append.mp hx with hx | hx
      · exact hsums x hx
      · simp only [List.mem_cons, List.not_mem_nil, or_false] at hx
        rcases hx with rfl | rfl | rfl | rfl
        · exact hproduct
        · exact hquotient
        · exact hremainder
        · exact htotal
    · rw [hprinted]
      show toInt32 (memUsageProportion used M) = _
      rw [toInt32_of_isInt32 htotal, memUsageProportion_eq_ceil (by omega) hM, ← hcard]
      push_cast
      rfl

/-- **When the usage report is right.** For every size of main memory that is an `int`, every
file whose processes fit into it and either runner: whenever a status line is printed, the
report stays in the range of an `int` and its memory usage is the percentage of occupied
addresses, rounded up, if and only if at most 21474836 addresses are occupied.
SOURCE: process-scheduler.c:249-266 -/
theorem usage_reported_iff_few_occupied (R : Runner) (sps : List ScheduledProcess) (memsize : ℤ)
    (hint : memsize ≤ 2147483647)
    (hfit : ∀ sp ∈ sps, 1 ≤ sp.memorySize ∧ sp.memorySize ≤ memsize) (loaded : RunnerState)
    (pcb : ℕ) (line : StatusLine) (h : R.Prints sps memsize loaded pcb line) :
    UsageReported memsize loaded.mem ↔
      (occupiedAddresses memsize (residents loaded.mem.procMems)).card ≤ 21474836 := by
  obtain ⟨b, p, time, hP, hb, hfind, hres, -⟩ := partition_of_prints hfit h
  have hp := mem_residents.mpr ⟨(mem_of_find hfind).1, hres⟩
  obtain ⟨hused, hle⟩ := notInDiskSize_bounds hP hp
  exact usageReported_iff hP (by omega) hint

/-- The largest process that can have main memory to itself and be reported.
SOURCE: process-scheduler.c:249-266 -/
theorem usage_reported_iff_few_occupied_largest :
    ∃ loaded, Runner.fcfs.Prints [⟨0, 1, 21474836, 1⟩] 21474836 loaded 0 ⟨0, 1, 1, 0, 100⟩ ∧
      (UsageReported 21474836 loaded.mem ↔
        (occupiedAddresses 21474836 (residents loaded.mem.procMems)).card ≤ 21474836) := by
  have hprints : ∃ loaded, Runner.fcfs.Prints [⟨0, 1, 21474836, 1⟩] 21474836 loaded 0
      ⟨0, 1, 1, 0, 100⟩ :=
    ⟨_, _, [.swapIn 0 0 [], .status 0 ⟨0, 1, 1, 0, 100⟩], ⟨⟨_, ⟨0, rfl⟩, rfl⟩, rfl⟩, rfl, by simp⟩
  obtain ⟨loaded, hloaded⟩ := hprints
  exact ⟨loaded, hloaded, usage_reported_iff_few_occupied .fcfs [⟨0, 1, 21474836, 1⟩] 21474836
    (by decide) (by decide) loaded 0 ⟨0, 1, 1, 0, 100⟩ hloaded⟩

/-- One process of 21474837 in a main memory of that size: the product is 2147483700, which is
no `int`, and the machine prints `memusage=-98%`.
SOURCE: process-scheduler.c:254-256 -/
theorem usage_report_overflows :
    ¬ ∀ (R : Runner) (sps : List ScheduledProcess) (memsize : ℤ), 1 ≤ memsize →
      memsize ≤ 2147483647 → (∀ sp ∈ sps, 1 ≤ sp.memorySize ∧ sp.memorySize ≤ memsize) →
      ∀ loaded pcb line, R.Prints sps memsize loaded pcb line →
        UsageReported memsize loaded.mem := by
  intro h
  have hprints : ∃ loaded, Runner.fcfs.Prints [⟨0, 1, 21474837, 1⟩] 21474837 loaded 0
      ⟨0, 1, 1, 0, 100⟩ ∧
      memusageValues loaded.mem.procMems 21474837 = [21474837, 2147483700, -99, -21474733, -98] :=
    ⟨_, ⟨_, [.swapIn 0 0 [], .status 0 ⟨0, 1, 1, 0, 100⟩], ⟨⟨_, ⟨0, rfl⟩, rfl⟩, rfl⟩, rfl,
      by simp⟩, rfl⟩
  obtain ⟨loaded, hloaded, hvalues⟩ := hprints
  have hreported := h .fcfs [⟨0, 1, 21474837, 1⟩] 21474837 (by decide) (by decide) (by decide)
    loaded 0 _ hloaded
  have hproduct := hreported.1 2147483700 (by rw [hvalues]; simp)
  exact absurd hproduct (by decide)

end Comp30023.Analysis
