import Comp30023.Analysis.MemoryPartition
import Comp30023.Library.MaximalRuns

/-!
# The holes of main memory

The free list is defined by what the memory manager does to it. The addresses that no
process memory occupies are defined without it. In a partition the first is the second
written down hole by hole: the segments of the list are the maximal runs of addresses
that no process memory occupies. So the first-fit search fails exactly when no hole is
large enough, what it takes is the top of the highest hole that is, and the length of
the list counts the holes.
-/

set_option autoImplicit false

namespace Comp30023.Analysis

open Comp30023.Library Comp30023.Model Comp30023.Interface

/-- The addresses of a main memory of size `M` that none of the process memories occupies. -/
def freeAddresses (M : ℤ) (procMems : List ProcessMemory) : Set ℤ :=
  {x | (1 ≤ x ∧ x ≤ M) ∧ ∀ p ∈ procMems, x ∉ (processSpan p).points}

/-- A hole: a run of addresses that none of the process memories occupies and that cannot be
made longer. -/
def Hole (M : ℤ) (procMems : List ProcessMemory) (s : Span) : Prop :=
  MaximalRun (freeAddresses M procMems) s

/-- INTERNAL: only which process memories there are matters for the holes. -/
theorem freeAddresses_congr {M : ℤ} {l l' : List ProcessMemory} (h : ∀ p, p ∈ l ↔ p ∈ l') :
    freeAddresses M l = freeAddresses M l' := by
  unfold freeAddresses
  simp only [h]

/-- The free list covers the addresses that no process memory occupies. -/
theorem covered_freeSpans {M : ℤ} {m : Memory} (hP : Partition M m) :
    covered (freeSpans m) = freeAddresses M (residents m.procMems) := by
  ext x
  have hex := hP.exact x
  have hres : depth (residentSpans m) x = 0 ↔
      ∀ p ∈ residents m.procMems, x ∉ (processSpan p).points := by
    rw [← not_iff_not, ← ne_eq, ← Nat.pos_iff_ne_zero, depth_pos_iff]
    simp [residentSpans]
  simp only [covered, freeAddresses, Set.mem_ofPred_eq, ← hres]
  split at hex <;> rename_i h <;> simp only [h, true_and, false_and, iff_false] <;> omega

variable {M : ℤ} {m : Memory} (hP : Partition M m)
include hP

/-- The segments of the free list are the holes. -/
theorem hole_iff {s : Span} :
    Hole M (residents m.procMems) s ↔ ∃ t ∈ m.memSegs, segmentSpan t = s := by
  unfold Hole
  rw [← covered_freeSpans hP, hP.coalesced.maximalRun_iff]
  unfold freeSpans
  rw [List.mem_map]

/-- INTERNAL: the free list is as long as there are holes. -/
theorem ncard_holes : {s | Hole M (residents m.procMems) s}.ncard = m.memSegs.length := by
  unfold Hole
  rw [← covered_freeSpans hP, hP.coalesced.ncard_maximalRun]
  unfold freeSpans
  rw [List.length_map]

/-- INTERNAL: every hole stands on a process memory or on the bottom of main memory. -/
theorem memSegs_length_le : m.memSegs.length ≤ (residents m.procMems).length + 1 := by
  have hone : ∀ x, depth (freeSpans m) x + depth (residentSpans m) x ≤ 1 := by
    intro x
    rw [hP.exact x]
    split <;> omega
  have hstand : ∀ s ∈ freeSpans m, s.bottom = 0 ∨ 0 < depth (residentSpans m) s.bottom := by
    intro s hs
    obtain ⟨t, ht, rfl⟩ := List.mem_map.mp hs
    obtain ⟨hlo, hhi, hpos⟩ := partition_segment_bounds hP ht
    have hbelow := (hP.coalesced.maximalRun hs).below
    have hex := hP.exact (segmentSpan t).bottom
    simp only [covered, Set.mem_ofPred_eq] at hbelow
    rw [segmentSpan_bottom] at *
    unfold getFreeMemorySegmentEndAddress at *
    split at hex <;> omega
  have hle := hP.coalesced.length_le 0 hone hstand
  simpa [freeSpans, residentSpans] using hle

/-- The first-fit search fails exactly when no hole is large enough.
SOURCE: memory-management.c:360-397 -/
theorem occupy_eq_none_iff {size : ℤ} : occupyFreeMemorySegment size m.memSegs = none ↔
    ¬ ∃ s, Hole M (residents m.procMems) s ∧ size ≤ s.len := by
  rw [occupyFreeMemorySegment_eq_none]
  constructor
  · rintro hsmall ⟨s, hs, hfit⟩
    obtain ⟨t, ht, rfl⟩ := (hole_iff hP).mp hs
    have := hsmall t ht
    rw [segmentSpan_len] at hfit
    omega
  · intro hno t ht
    by_contra hfit
    exact hno ⟨segmentSpan t, (hole_iff hP).mpr ⟨t, ht, rfl⟩, by rw [segmentSpan_len]; omega⟩

/-- What the first-fit search takes is the top of the highest hole that is large enough.
SOURCE: memory-management.c:360-397 -/
theorem occupy_isGreatest {size startAddress : ℤ} {memSegs : List FreeMemorySegment}
    (hocc : occupyFreeMemorySegment size m.memSegs = some (startAddress, memSegs)) :
    IsGreatest {x | ∃ s, Hole M (residents m.procMems) s ∧ size ≤ s.len ∧ s.top = x}
      startAddress := by
  obtain ⟨l₁, t, l₂, hl, hsmall, hfit, rfl, -⟩ := occupyFreeMemorySegment_first hocc
  constructor
  · exact ⟨segmentSpan t, (hole_iff hP).mpr ⟨t, by simp [hl], rfl⟩, hfit, rfl⟩
  · rintro x ⟨s, hs, hsize, rfl⟩
    obtain ⟨u, hu, rfl⟩ := (hole_iff hP).mp hs
    rw [segmentSpan_len] at hsize
    rw [hl] at hu
    -- the segments above the one taken are too small, those below start lower
    rcases List.mem_append.mp hu with hu | hu
    · have := hsmall u hu
      omega
    · rcases List.mem_cons.mp hu with rfl | hu
      · exact le_rfl
      · have hpw := hP.coalesced.pairwise
        unfold freeSpans at hpw
        rw [hl, List.map_append, List.map_cons, List.pairwise_append, List.pairwise_cons] at hpw
        have hbelow := hpw.2.1.1 _ (List.mem_map_of_mem hu)
        have hpos := (partition_segment_bounds hP (t := t) (by simp [hl])).2.2
        simp only [segmentSpan_top, segmentSpan_bottom, getFreeMemorySegmentEndAddress] at *
        omega

end Comp30023.Analysis
