import Comp30023.Analysis.MemoryPartition

/-!
# Swapping in

`swapInProcessMemory` tries the free list and, as long as nothing fits, swaps out one
process memory after the other. From a partition it ends in a partition with the
requested process memory in main memory, whatever it had to swap out; it can only
fail by running out of process memories to swap out, and it does not fail when the
request is at most the whole of main memory, because then an empty main memory is one
segment that fits. Every other process memory is as before or was put in disk.
-/

set_option autoImplicit false

namespace Comp30023.Analysis

open Comp30023.Library Comp30023.Model Comp30023.Interface

/-- What the memory manager never changes about the process memories on its list. -/
def shape (m : Memory) : List (ℕ × ℤ × ℤ) :=
  m.procMems.map fun p => (p.ptr, p.size, p.processId)

/-- INTERNAL: a write that keeps pointer, size and id keeps the shape. -/
theorem shape_modify {m : Memory} {ptr : ℕ} {f : ProcessMemory → ProcessMemory}
    (hf : ∀ p, ((f p).ptr, (f p).size, (f p).processId) = (p.ptr, p.size, p.processId)) :
    shape (m.modify ptr f) = shape m := by
  unfold shape Memory.modify
  rw [List.map_map]
  apply List.map_congr_left
  intro p _
  simp only [Function.comp_apply]
  split
  · exact hf p
  · rfl

theorem shape_release (m : Memory) (p : ProcessMemory) : shape (m.release p) = shape m :=
  shape_modify (m := { m with memSegs := _ }) fun _ => rfl

/-- INTERNAL: what a pointer finds after a process memory was put in disk. -/
theorem find_release (m : Memory) (p : ProcessMemory) (q : ℕ) :
    (m.release p).find q = if q = p.ptr then (m.find q).map .swappedOut else m.find q :=
  find_modify (m := { m with memSegs := _ }) (f := .swappedOut) (fun _ => rfl) q

/-- INTERNAL: what a pointer finds after a process memory was swapped in. -/
theorem find_swappedIn (m : Memory) (memSegs : List FreeMemorySegment) (ptr : ℕ)
    (startAddress time : ℤ) (q : ℕ) :
    ({ m with memSegs := memSegs }.modify ptr (.swappedIn startAddress time)).find q =
      if q = ptr then (m.find q).map (.swappedIn startAddress time) else m.find q :=
  find_modify (m := { m with memSegs := memSegs }) (f := .swappedIn startAddress time)
    (fun _ => rfl) q

/-- INTERNAL: one process memory less is in main memory.
SOURCE: memory-management.c:446-453 -/
theorem residents_release {M : ℤ} {m : Memory} (hP : Partition M m) {p : ProcessMemory}
    (hp : p ∈ residents m.procMems) :
    (residents (m.release p).procMems).length + 1 = (residents m.procMems).length := by
  obtain ⟨hmem, hres⟩ := mem_residents.mp hp
  obtain ⟨l₁, l₂, hl⟩ := List.append_of_mem hmem
  have hsplit : (m.release p).procMems = l₁ ++ p.swappedOut :: l₂ :=
    modify_split (m := { m with memSegs := _ }) hl hP.pointers _
  rw [hsplit, hl, residents_append, residents_append, residents_cons_resident hres,
    residents_cons_inDisk (isProcessMemoryInDisk_swappedOut p)]
  simp only [List.length_append, List.length_cons]
  omega

/-- INTERNAL: what is in main memory after a write through a pointer was in main memory before,
or is what the pointer points to. -/
theorem residents_modify {m : Memory} {ptr : ℕ} {f : ProcessMemory → ProcessMemory}
    {p : ProcessMemory} (hp : p ∈ residents (m.modify ptr f).procMems) :
    p ∈ residents m.procMems ∧ p.ptr ≠ ptr ∨ ∃ p' ∈ m.procMems, p'.ptr = ptr ∧ p = f p' := by
  obtain ⟨hmem, hres⟩ := mem_residents.mp hp
  obtain ⟨p', hp', rfl⟩ := List.mem_map.mp hmem
  by_cases heq : p'.ptr = ptr
  · rw [if_pos heq]
    exact Or.inr ⟨p', hp', heq, rfl⟩
  · rw [if_neg heq] at hres ⊢
    exact Or.inl ⟨mem_residents.mpr ⟨hp', hres⟩, heq⟩

/-- What may have happened to a process memory that was not the one swapped in. -/
def KeptOrSwappedOut (m m' : Memory) (q : ℕ) : Prop :=
  m'.find q = m.find q ∨ m'.find q = (m.find q).map .swappedOut

/-- INTERNAL: a process memory that was kept or swapped out and then again kept or
swapped out was kept or swapped out. -/
theorem KeptOrSwappedOut.trans {m₁ m₂ m₃ : Memory} {q : ℕ} (h₁ : KeptOrSwappedOut m₁ m₂ q)
    (h₂ : KeptOrSwappedOut m₂ m₃ q) : KeptOrSwappedOut m₁ m₃ q := by
  unfold KeptOrSwappedOut at *
  rcases h₁ with h₁ | h₁ <;> rcases h₂ with h₂ | h₂ <;> rw [h₁] at h₂
  · exact Or.inl h₂
  · exact Or.inr h₂
  · exact Or.inr h₂
  · refine Or.inr (h₂.trans ?_)
    rw [Option.map_map]
    rfl

/-- The outcome of swapping in the process memory `ptr` at `time`. -/
structure SwapsIn (M : ℤ) (ptr : ℕ) (time : ℤ) (m m' : Memory) : Prop where
  partition : Partition M m'
  shape : shape m' = shape m
  allocated : m'.allocated = m.allocated
  target : ∃ p startAddress, m.find ptr = some p ∧
    m'.find ptr = some (p.swappedIn startAddress time) ∧
    isProcessMemoryInDisk (p.swappedIn startAddress time) = false
  others : ∀ q, q ≠ ptr → KeptOrSwappedOut m m' q

/-- INTERNAL: a pass of the loop that finds a segment ends it.
SOURCE: memory-management.c:362-397 -/
theorem swapInLoop_fit {ptr fuel : ℕ} {time startAddress : ℤ} {m : Memory} {swappedOut : List ℕ}
    {p : ProcessMemory} {memSegs : List FreeMemorySegment} (hfind : m.find ptr = some p)
    (hdisk : isProcessMemoryInDisk p = true)
    (hocc : occupyFreeMemorySegment p.size m.memSegs = some (startAddress, memSegs)) :
    swapInLoop ptr time (fuel + 1) m swappedOut =
      .ok ({ m with memSegs := memSegs }.modify ptr (.swappedIn startAddress time),
        swappedOut) := by
  simp only [swapInLoop, hfind, hdisk, hocc, if_true]

/-- INTERNAL: a pass of the loop that finds none swaps out a process memory and goes on.
SOURCE: memory-management.c:399 -/
theorem swapInLoop_evict {ptr fuel : ℕ} {time : ℤ} {m : Memory} {swappedOut : List ℕ}
    {p v : ProcessMemory} (hfind : m.find ptr = some p) (hdisk : isProcessMemoryInDisk p = true)
    (hocc : occupyFreeMemorySegment p.size m.memSegs = none)
    (hv : findSwapOut m.procMems = some v) :
    swapInLoop ptr time (fuel + 1) m swappedOut =
      swapInLoop ptr time fuel (m.release v) (swappedOut ++ [v.ptr]) := by
  simp only [swapInLoop, hfind, hdisk, hocc, swapOutProcessMemory, hv, if_true]

/-- INTERNAL: a process memory that is swapped out is not the one to be swapped in.
SOURCE: memory-management.c:405-456 -/
theorem swapOut_ne {M : ℤ} {m : Memory} (hP : Partition M m) {ptr : ℕ} {p v : ProcessMemory}
    (hfind : m.find ptr = some p) (hdisk : isProcessMemoryInDisk p = true)
    (hv : findSwapOut m.procMems = some v) : ptr ≠ v.ptr := by
  intro heq
  obtain ⟨hvmem, hvres⟩ := mem_residents.mp (findSwapOut_mem hv)
  have hvfind := find_of_mem hP.pointers hvmem
  rw [← heq, hfind, Option.some.injEq] at hvfind
  rw [hvfind, hvres] at hdisk
  simp at hdisk

/-- INTERNAL: the loop of `swap_in_process_memory` either ends as it should or asks for a
process memory to swap out when there is none.
SOURCE: memory-management.c:357-400 -/
theorem swapInLoop_spec {M : ℤ} {ptr : ℕ} {time : ℤ} (fuel : ℕ) {m : Memory}
    (swappedOut : List ℕ) (hP : Partition M m) {p : ProcessMemory} (hfind : m.find ptr = some p)
    (hdisk : isProcessMemoryInDisk p = true) (hfuel : (residents m.procMems).length < fuel) :
    (swapInLoop ptr time fuel m swappedOut = .error .noVictim ∧
      (1 ≤ M → M < p.size)) ∨
    ∃ m' victims, swapInLoop ptr time fuel m swappedOut = .ok (m', swappedOut ++ victims) ∧
      SwapsIn M ptr time m m' := by
  induction fuel generalizing m swappedOut with
  | zero => omega
  | succ fuel ih =>
    obtain ⟨hmem, hptr⟩ := mem_of_find hfind
    cases hocc : occupyFreeMemorySegment p.size m.memSegs with
    | some taken =>
      obtain ⟨startAddress, memSegs⟩ := taken
      right
      obtain ⟨hP', hres⟩ := partition_occupy hP hmem hdisk hocc time
      rw [hptr] at hP'
      refine ⟨_, [], by rw [swapInLoop_fit hfind hdisk hocc, List.append_nil], hP',
        shape_modify (m := { m with memSegs := _ }) fun _ => rfl, rfl,
        ⟨p, startAddress, hfind, ?_, hres⟩, fun q hq => Or.inl ?_⟩
      · rw [find_swappedIn, if_pos rfl, hfind]
        rfl
      · rw [find_swappedIn, if_neg hq]
    | none =>
      cases hv : findSwapOut m.procMems with
      | none =>
        left
        refine ⟨by simp only [swapInLoop, hfind, hdisk, hocc, swapOutProcessMemory, hv, if_true],
          fun hM => ?_⟩
        -- an empty main memory is one segment, so what does not fit is larger than all of it
        have hsingle := partition_memSegs_eq_single hM hP (findSwapOut_eq_none.mp hv)
        rw [hsingle] at hocc
        simpa using occupyFreeMemorySegment_eq_none.mp hocc ⟨M, M⟩ (by simp)
      | some v =>
        rw [swapInLoop_evict hfind hdisk hocc hv]
        have hvres := findSwapOut_mem hv
        obtain ⟨hvmem, hvd⟩ := mem_residents.mp hvres
        have hne := swapOut_ne hP hfind hdisk hv
        have hfind' : (m.release v).find ptr = some p := by rw [find_release, if_neg hne, hfind]
        have hcount := residents_release hP hvres
        rcases ih (swappedOut ++ [v.ptr]) (partition_release hP hvmem hvd) hfind'
          (by omega) with herr | ⟨m', victims, hok, hsw⟩
        · exact Or.inl herr
        · right
          refine ⟨m', v.ptr :: victims, by rw [hok]; simp, hsw.partition,
            hsw.shape.trans (shape_release m v), hsw.allocated, ?_, fun q hq => ?_⟩
          · obtain ⟨p', a, hp', ht, hr⟩ := hsw.target
            rw [hfind', Option.some.injEq] at hp'
            exact ⟨p, a, hfind, by rw [ht, hp'], by rw [hp']; exact hr⟩
          · have hstep : KeptOrSwappedOut m (m.release v) q := by
              unfold KeptOrSwappedOut
              rw [find_release]
              split
              · exact Or.inr rfl
              · exact Or.inl rfl
            exact hstep.trans (hsw.others q hq)

/-- Swapping in a process memory that is in disk ends with it in main memory, unless the
eviction loop asks for a process memory to swap out when there is none; and that only
happens to a process memory larger than main memory.
SOURCE: memory-management.c:351-403 -/
theorem swapInProcessMemory_spec {M : ℤ} {ptr : ℕ} {m : Memory} (time : ℤ) (hP : Partition M m)
    {p : ProcessMemory} (hfind : m.find ptr = some p) (hdisk : isProcessMemoryInDisk p = true) :
    (swapInProcessMemory ptr time m = .error .noVictim ∧ (1 ≤ M → M < p.size)) ∨
    ∃ m' victims, swapInProcessMemory ptr time m = .ok (m', victims) ∧
      SwapsIn M ptr time m m' := by
  have hle : (residents m.procMems).length ≤ m.procMems.length := List.length_filter_le _ _
  simpa [swapInProcessMemory] using
    swapInLoop_spec (M := M) (m.procMems.length + 1) [] hP hfind hdisk (by omega)

/-- INTERNAL: when a segment fits at once, nothing is swapped out.
SOURCE: memory-management.c:362-397 -/
theorem swapInProcessMemory_fit {ptr : ℕ} {time startAddress : ℤ} {m : Memory}
    {p : ProcessMemory} {memSegs : List FreeMemorySegment} (hfind : m.find ptr = some p)
    (hdisk : isProcessMemoryInDisk p = true)
    (hocc : occupyFreeMemorySegment p.size m.memSegs = some (startAddress, memSegs)) :
    swapInProcessMemory ptr time m =
      .ok ({ m with memSegs := memSegs }.modify ptr (.swappedIn startAddress time), []) :=
  swapInLoop_fit hfind hdisk hocc

/-- INTERNAL: a process memory that is already in main memory is left alone.
SOURCE: memory-management.c:357 -/
theorem swapInProcessMemory_resident {ptr : ℕ} {time : ℤ} {m : Memory} {p : ProcessMemory}
    (hfind : m.find ptr = some p) (hres : isProcessMemoryInDisk p = false) :
    swapInProcessMemory ptr time m = .ok (m, []) := by
  simp only [swapInProcessMemory, swapInLoop, hfind, hres, Bool.false_eq_true, if_false]

end Comp30023.Analysis
