import Comp30023.Analysis.SwapIn

/-!
# The memory partition over every sequence of operations

Any finite sequence of the operations of the memory manager, started from the fresh
lists and each called as its callers may call it, runs through without a fault and
ends in a state whose free list is sorted and coalesced, and in which free segments
and process memories in main memory are disjoint and together are all of main memory.
-/

set_option autoImplicit false

namespace Comp30023.Analysis

open Comp30023.Library Comp30023.Model Comp30023.Interface

/-- A call of the memory manager. -/
inductive MemoryOp where
  /-- `new_process_memory`, then `add_process_memory_to_process_memories_list` -/
  | addNew (size processId : ℤ)
  | swapIn (procMem : ℕ) (time : ℤ)
  | swapOut
  | swapOutByProcessMemory (procMem : ℕ)
  | remove (processId : ℤ)

/-- The call on a state. -/
def MemoryOp.perform : MemoryOp → Memory → Except Fault Memory
  | .addNew size processId, m => .ok (addNewProcessMemoryToProcessMemoriesList size processId m)
  | .swapIn procMem time, m => (swapInProcessMemory procMem time m).map Prod.fst
  | .swapOut, m => (swapOutProcessMemory m).map Prod.snd
  | .swapOutByProcessMemory procMem, m => swapOutProcessMemoryByProcessMemory procMem m
  | .remove processId, m => .ok (removeProcessMemoryByProcessId processId m).2

/-- How an operation may be called: with a size that fits into a main memory of size
`M`, on a process memory of the list, and `swap_out_process_memory` only while some
process memory is not in disk. -/
def MemoryOp.Allowed (M : ℤ) : MemoryOp → Memory → Prop
  | .addNew size _, _ => 1 ≤ size ∧ size ≤ M
  | .swapIn procMem _, m => ∃ p ∈ m.procMems, p.ptr = procMem
  | .swapOut, m => ∃ p ∈ m.procMems, isProcessMemoryInDisk p = false
  | .swapOutByProcessMemory procMem, m => ∃ p ∈ m.procMems, p.ptr = procMem
  | .remove _, _ => True

/-- A sequence of calls. -/
def performAll : List MemoryOp → Memory → Except Fault Memory
  | [], m => .ok m
  | op :: ops, m =>
    match op.perform m with
    | .error e => .error e
    | .ok m' => performAll ops m'

/-- Every call of the sequence is allowed in the state it is made in. -/
def AllAllowed (M : ℤ) : List MemoryOp → Memory → Prop
  | [], _ => True
  | op :: ops, m => op.Allowed M m ∧ ∀ m', op.perform m = .ok m' → AllAllowed M ops m'

/-- The addresses `(start_address - size, start_address]` of every free segment and of
every process memory that is not in disk. -/
def addressRuns (m : Memory) : List (Set ℤ) :=
  m.memSegs.map (fun s => Set.Ioc (getFreeMemorySegmentEndAddress s) s.startAddress) ++
    (m.procMems.filter fun p => !isProcessMemoryInDisk p).map
      fun p => Set.Ioc (getProcessMemoryEndAddress p) p.startAddress

/-- Every process memory on the list would fit into a main memory of size `M`. -/
def Fits (M : ℤ) (m : Memory) : Prop := ∀ p ∈ m.procMems, p.size ≤ M

/-- INTERNAL: fitting is a matter of the shape. -/
theorem Fits.of_shape {M : ℤ} {m m' : Memory} (h : Fits M m) (hshape : shape m' = shape m) :
    Fits M m' := by
  intro p hp
  have hmem : (p.ptr, p.size, p.processId) ∈ shape m := by
    rw [← hshape]
    exact List.mem_map_of_mem (f := fun p : ProcessMemory => (p.ptr, p.size, p.processId)) hp
  obtain ⟨q, hq, heq⟩ := List.mem_map.mp hmem
  simp only [Prod.mk.injEq] at heq
  rw [← heq.2.1]
  exact h q hq

/-- INTERNAL: one allowed call does not fault and keeps the partition. -/
theorem MemoryOp.perform_spec {M : ℤ} (hM : 1 ≤ M) {m : Memory} (hP : Partition M m)
    (hfits : Fits M m) (op : MemoryOp) (hop : op.Allowed M m) :
    ∃ m', op.perform m = .ok m' ∧ Partition M m' ∧ Fits M m' := by
  cases op with
  | addNew size processId =>
    refine ⟨_, rfl, partition_addNew hP hop.1 processId, ?_⟩
    intro p hp
    rcases List.mem_append.mp hp with hp | hp
    · exact hfits p hp
    · rw [List.mem_singleton.mp hp]
      exact hop.2
  | swapIn procMem time =>
    obtain ⟨p, hp, rfl⟩ := hop
    have hfind := find_of_mem hP.pointers hp
    cases hdisk : isProcessMemoryInDisk p with
    | false =>
      exact ⟨m, by simp [perform, swapInProcessMemory_resident hfind hdisk, Except.map], hP, hfits⟩
    | true =>
      rcases swapInProcessMemory_spec time hP hfind hdisk with ⟨-, hlarge⟩ | h
      · have := hlarge hM
        have := hfits p hp
        omega
      · obtain ⟨m', victims, hok, hsw⟩ := h
        exact ⟨m', by simp [perform, hok, Except.map], hsw.partition, hfits.of_shape hsw.shape⟩
  | swapOut =>
    obtain ⟨p, hp, hres⟩ := hop
    cases hv : findSwapOut m.procMems with
    | none =>
      have hmem := mem_residents.mpr ⟨hp, hres⟩
      rw [findSwapOut_eq_none.mp hv] at hmem
      simp at hmem
    | some v =>
      obtain ⟨hvmem, hvres⟩ := mem_residents.mp (findSwapOut_mem hv)
      exact ⟨m.release v, by simp [perform, swapOutProcessMemory, hv, Except.map],
        partition_release hP hvmem hvres, hfits.of_shape (shape_release m v)⟩
  | swapOutByProcessMemory procMem =>
    obtain ⟨p, hp, rfl⟩ := hop
    have hfind := find_of_mem hP.pointers hp
    cases hdisk : isProcessMemoryInDisk p with
    | false =>
      exact ⟨m.release p, by simp [perform, swapOutProcessMemoryByProcessMemory, hfind, hdisk],
        partition_release hP hp hdisk, hfits.of_shape (shape_release m p)⟩
    | true =>
      exact ⟨m, by simp [perform, swapOutProcessMemoryByProcessMemory, hfind, hdisk], hP, hfits⟩
  | remove processId =>
    refine ⟨_, rfl, partition_remove hP processId, ?_⟩
    intro p hp
    apply hfits p
    unfold removeProcessMemoryByProcessId at hp
    cases hun : unlinkProcessId processId m.procMems with
    | none => simpa [hun] using hp
    | some found =>
      obtain ⟨q, rest⟩ := found
      obtain ⟨l₁, l₂, hl, rfl, -⟩ := unlinkProcessId_split hun
      have hrest : p ∈ l₁ ++ l₂ := by
        simp only [hun] at hp
        split at hp <;> exact hp
      rw [hl]
      rcases List.mem_append.mp hrest with h | h
      · exact List.mem_append_left _ h
      · exact List.mem_append_right _ (List.mem_cons_of_mem _ h)

/-- INTERNAL: a whole sequence of allowed calls does not fault and keeps the partition. -/
theorem performAll_spec {M : ℤ} (hM : 1 ≤ M) (ops : List MemoryOp) {m : Memory}
    (hP : Partition M m) (hfits : Fits M m) (hops : AllAllowed M ops m) :
    ∃ m', performAll ops m = .ok m' ∧ Partition M m' := by
  induction ops generalizing m with
  | nil => exact ⟨m, rfl, hP⟩
  | cons op ops ih =>
    obtain ⟨hop, hrest⟩ := hops
    obtain ⟨m', hok, hP', hfits'⟩ := op.perform_spec hM hP hfits hop
    obtain ⟨m'', hrun, hP''⟩ := ih hP' hfits' (hrest m' hok)
    exact ⟨m'', by simp only [performAll, hok, hrun], hP''⟩

/-- INTERNAL: the runs of addresses are those of the spans. -/
theorem addressRuns_eq (m : Memory) :
    addressRuns m = (freeSpans m ++ residentSpans m).map Span.points := by
  simp only [addressRuns, freeSpans, residentSpans, residents, List.map_append, List.map_map]
  rfl

/-- INTERNAL: in a partition the runs of addresses are pairwise disjoint. -/
theorem partition_disjoint {M : ℤ} {m : Memory} (hP : Partition M m) :
    (addressRuns m).Pairwise Disjoint := by
  rw [addressRuns_eq, List.pairwise_map]
  apply pairwise_disjoint_of_depth
  intro x
  rw [depth_append, hP.exact x]
  split <;> omega

/-- INTERNAL: in a partition the runs of addresses are together all of main memory. -/
theorem partition_union {M : ℤ} {m : Memory} (hP : Partition M m) :
    {x | ∃ run ∈ addressRuns m, x ∈ run} = Set.Icc 1 M := by
  ext x
  rw [addressRuns_eq]
  simp only [Set.mem_ofPred_eq, List.mem_map, exists_exists_and_eq_and]
  rw [← depth_pos_iff, depth_append, hP.exact x, Set.mem_Icc]
  split <;> rename_i h
  · exact ⟨fun _ => h, fun _ => Nat.one_pos⟩
  · exact ⟨fun h0 => absurd h0 (Nat.lt_irrefl 0), fun h0 => absurd h0 h⟩

/-- INTERNAL: the sizes of all runs of addresses add up to the whole of main memory. -/
theorem partition_total {M : ℤ} (hM : 1 ≤ M) {m : Memory} (hP : Partition M m) :
    (m.memSegs.map FreeMemorySegment.size).sum +
      getProcessMemoriesListNotInDiskSize m.procMems = M := by
  have hbounds : ∀ s ∈ freeSpans m ++ residentSpans m, 0 ≤ s.len ∧ 0 ≤ s.bottom ∧ s.top ≤ M := by
    intro s hs
    rcases List.mem_append.mp hs with hs | hs
    · obtain ⟨t, ht, rfl⟩ := List.mem_map.mp hs
      obtain ⟨hlo, hhi, hpos⟩ := partition_segment_bounds hP ht
      exact ⟨by rw [segmentSpan_len]; omega, hlo, hhi⟩
    · obtain ⟨p, hp, rfl⟩ := List.mem_map.mp hs
      obtain ⟨hlo, hhi, hpos⟩ := partition_resident_bounds hP hp
      exact ⟨le_trans (by omega) hpos, hlo, hhi⟩
  have hsum := sum_depth hbounds
  have hone : ∑ x ∈ Finset.Ioc 0 M, (depth (freeSpans m ++ residentSpans m) x : ℤ) = M := by
    have hdepth : ∀ x ∈ Finset.Ioc 0 M,
        (depth (freeSpans m ++ residentSpans m) x : ℤ) = 1 := by
      intro x hx
      rw [Finset.mem_Ioc] at hx
      rw [depth_append, hP.exact x, if_pos ⟨by omega, hx.2⟩]
      rfl
    rw [Finset.sum_congr rfl hdepth]
    simp
    omega
  rw [hone] at hsum
  simp only [freeSpans, residentSpans, List.map_append, List.map_map, List.sum_append] at hsum
  exact hsum.symm

/-- **The memory partition.** Whatever sequence of allowed calls is made on the fresh
lists of a main memory of size `M ≥ 1`, no call faults, and in the resulting state the
free list is strictly descending with sizes of at least one and a gap between
consecutive segments, the runs of addresses of the free segments and of the process
memories in main memory are pairwise disjoint, their union is exactly `1..M`, and their
sizes add up to `M`.
SOURCE: memory-management.c:50-161, 267-329, 351-476 -/
theorem memory_partition_of_operations (M : ℤ) (hM : 1 ≤ M) (ops : List MemoryOp)
    (hops : AllAllowed M ops (newMemory M)) :
    ∃ m, performAll ops (newMemory M) = .ok m ∧
      (m.memSegs.Pairwise fun s t => t.startAddress < s.startAddress) ∧
      (∀ s ∈ m.memSegs, 1 ≤ s.size) ∧
      (m.memSegs.IsChain fun s t => t.startAddress < getFreeMemorySegmentEndAddress s) ∧
      (addressRuns m).Pairwise Disjoint ∧
      {x | ∃ run ∈ addressRuns m, x ∈ run} = Set.Icc 1 M ∧
      (m.memSegs.map FreeMemorySegment.size).sum +
        getProcessMemoriesListNotInDiskSize m.procMems = M := by
  obtain ⟨m, hrun, hP⟩ := performAll_spec hM ops (partition_newMemory hM)
    (by intro p hp; simp [newMemory] at hp) hops
  have hpos : ∀ s ∈ m.memSegs, 1 ≤ s.size := by
    intro s hs
    exact (partition_segment_bounds hP hs).2.2
  refine ⟨m, hrun, ?_, hpos, ?_, partition_disjoint hP, partition_union hP,
    partition_total hM hP⟩
  · have hpw := hP.coalesced.pairwise
    unfold freeSpans at hpw
    rw [List.pairwise_map] at hpw
    refine hpw.imp_of_mem fun {s t} hs _ hst => ?_
    have := hpos s hs
    simp only [segmentSpan_top, segmentSpan_bottom, getFreeMemorySegmentEndAddress] at hst
    omega
  · have hch := hP.coalesced.gaps
    unfold freeSpans at hch
    rw [List.isChain_map] at hch
    exact hch

/-- A run with two processes that fill main memory, an eviction and a removal. -/
theorem memory_partition_of_operations_run :
    ∃ m, performAll [.addNew 60 1, .addNew 50 2, .swapIn 0 0, .swapIn 1 1, .remove 2]
        (newMemory 100) = .ok m ∧ (addressRuns m).Pairwise Disjoint := by
  obtain ⟨m, hrun, -, -, -, hdisj, -⟩ := memory_partition_of_operations 100 (by decide)
    [.addNew 60 1, .addNew 50 2, .swapIn 0 0, .swapIn 1 1, .remove 2]
    (by
      refine ⟨by simp [MemoryOp.Allowed], fun m₁ h₁ => ?_⟩
      obtain rfl := Except.ok.inj h₁
      refine ⟨by simp [MemoryOp.Allowed], fun m₂ h₂ => ?_⟩
      obtain rfl := Except.ok.inj h₂
      refine ⟨⟨_, List.mem_cons_self, rfl⟩, fun m₃ h₃ => ?_⟩
      obtain rfl := Except.ok.inj h₃
      refine ⟨⟨_, List.mem_cons_of_mem _ List.mem_cons_self, rfl⟩, fun m₄ h₄ => ?_⟩
      exact ⟨trivial, fun _ _ => trivial⟩)
  exact ⟨m, hrun, hdisj⟩

end Comp30023.Analysis
