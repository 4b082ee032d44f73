import Comp30023.Analysis.ReleasedMemory
import Comp30023.Interface.EvictionOrder

/-!
# What swapping in does

`swap_in_process_memory` retries a first-fit search and swaps out one process memory
after the other as long as it fails. The first theorem describes the result without the
loop: the process memories that go to disk are the shortest beginning of the eviction
order after which some hole is large enough, and the requested one takes the top of the
highest hole that is. The second counts the rounds: there is at most one for every
process memory in main memory, and none of them has nothing to swap out.

Both come from one induction on the eviction order (`swapInLoop_greedy`). Swapping out
the first process memory of the order leaves the rest of it as the order of the new
state, and when the order is used up main memory is one segment.
-/

set_option autoImplicit false

namespace Comp30023.Analysis

open Comp30023.Library Comp30023.Model Comp30023.Interface

variable {M : ℤ} {m : Memory} {e p : ProcessMemory} {es : List ProcessMemory}

/-- INTERNAL: without its first process memory the eviction order is that of the state in
which that one is in disk. -/
theorem evictionOrder_release (hP : Partition M m) (hes : EvictionOrder m.procMems (e :: es)) :
    EvictionOrder (m.release e).procMems es := by
  have he : e ∈ residents m.procMems := hes.perm.mem_iff.mp List.mem_cons_self
  obtain ⟨l₁, l₂, hl, hsplit, hperm⟩ := procMems_release hP he
  refine ⟨(List.perm_cons e).mp (hes.perm.trans hperm), ?_⟩
  have hptr : (m.release e).procMems.map ProcessMemory.ptr = m.procMems.map ProcessMemory.ptr := by
    rw [hsplit, hl]
    simp [ProcessMemory.swappedOut]
  have hordered := (List.pairwise_cons.mp hes.ordered).2
  unfold EvictedBefore position at hordered ⊢
  rw [hptr]
  exact hordered

/-- INTERNAL: the process memories that the order begins with are in main memory. -/
theorem evictionOrder_mem_take (hes : EvictionOrder m.procMems es) (k : ℕ) :
    ∀ q ∈ es.take k, q ∈ residents m.procMems := by
  intro q hq
  exact hes.perm.mem_iff.mp (List.mem_of_mem_take hq)

/-- INTERNAL: no process memory is twice in the eviction order. -/
theorem evictionOrder_nodup (hP : Partition M m) (hes : EvictionOrder m.procMems es) : es.Nodup :=
  hes.perm.nodup_iff.mpr (residents_nodup hP)

/-- INTERNAL: what is to be swapped out next is the first of the eviction order.
SOURCE: memory-management.c:410-443 -/
theorem findSwapOut_of_order (hP : Partition M m)
    (hes : EvictionOrder m.procMems (e :: es)) : findSwapOut m.procMems = some e := by
  cases hv : findSwapOut m.procMems with
  | none =>
    have he : e ∈ residents m.procMems := hes.perm.mem_iff.mp List.mem_cons_self
    rw [findSwapOut_eq_none.mp hv] at he
    simp at he
  | some v => rw [findSwapOut_eq_head hP.pointers hes hv]

/-- INTERNAL: when something fits, the loop ends in its first round.
SOURCE: memory-management.c:362-397 -/
theorem swapInLoop_first {time startAddress : ℤ} {ptr : ℕ} {memSegs : List FreeMemorySegment}
    (hfind : m.find ptr = some p) (hdisk : isProcessMemoryInDisk p = true)
    (hocc : occupyFreeMemorySegment p.size m.memSegs = some (startAddress, memSegs)) :
    ∀ fuel swappedOut, 0 < fuel → swapInLoop ptr time fuel m swappedOut =
      .ok ({ m with memSegs := memSegs }.modify ptr (.swappedIn startAddress time),
        swappedOut) := by
  intro fuel swappedOut hfuel
  obtain ⟨fuel, rfl⟩ := Nat.exists_eq_succ_of_ne_zero (by omega : fuel ≠ 0)
  exact swapInLoop_fit hfind hdisk hocc

/-- INTERNAL: the loop swaps out the eviction order from its beginning until something fits,
and it does so before the order is used up.
SOURCE: memory-management.c:357-400 -/
theorem swapInLoop_greedy (time : ℤ) {ptr : ℕ} (hP : Partition M m)
    (hes : EvictionOrder m.procMems es) (hfind : m.find ptr = some p)
    (hdisk : isProcessMemoryInDisk p = true) (hsize : p.size ≤ M) :
    ∃ k ≤ es.length,
      (∀ j < k, occupyFreeMemorySegment p.size (releaseAll m (es.take j)).memSegs = none) ∧
      ∃ startAddress memSegs,
        occupyFreeMemorySegment p.size (releaseAll m (es.take k)).memSegs =
          some (startAddress, memSegs) ∧
        ∀ fuel swappedOut, k < fuel → swapInLoop ptr time fuel m swappedOut =
          .ok ({ releaseAll m (es.take k) with memSegs := memSegs }.modify ptr
            (.swappedIn startAddress time), swappedOut ++ (es.take k).map ProcessMemory.ptr) := by
  have hpos : 1 ≤ p.size := hP.sizes p (mem_of_find hfind).1
  induction es generalizing m with
  | nil =>
    have hnone : residents m.procMems = [] := by simpa using hes.perm.symm
    have hsingle := partition_memSegs_eq_single (by omega) hP hnone
    cases hocc : occupyFreeMemorySegment p.size m.memSegs with
    | none =>
      rw [hsingle] at hocc
      have := occupyFreeMemorySegment_eq_none.mp hocc ⟨M, M⟩ (by simp)
      simp only at this
      omega
    | some taken =>
      obtain ⟨startAddress, memSegs⟩ := taken
      refine ⟨0, le_rfl, by simp, startAddress, memSegs, hocc, ?_⟩
      simpa using swapInLoop_first hfind hdisk hocc
  | cons e es ih =>
    cases hocc : occupyFreeMemorySegment p.size m.memSegs with
    | some taken =>
      obtain ⟨startAddress, memSegs⟩ := taken
      refine ⟨0, Nat.zero_le _, by simp, startAddress, memSegs, hocc, ?_⟩
      simpa using swapInLoop_first hfind hdisk hocc
    | none =>
      have hv := findSwapOut_of_order hP hes
      obtain ⟨hmem, hres⟩ := mem_residents.mp (findSwapOut_mem hv)
      have hne := swapOut_ne hP hfind hdisk hv
      have hfind' : (m.release e).find ptr = some p := by rw [find_release, if_neg hne, hfind]
      obtain ⟨k, hk, hbefore, startAddress, memSegs, hfit, hloop⟩ :=
        ih (partition_release hP hmem hres) (evictionOrder_release hP hes) hfind'
      refine ⟨k + 1, by simpa using hk, ?_, startAddress, memSegs, hfit, ?_⟩
      · intro j hj
        cases j with
        | zero => exact hocc
        | succ j => exact hbefore j (by omega)
      · intro fuel swappedOut hfuel
        obtain ⟨fuel, rfl⟩ := Nat.exists_eq_succ_of_ne_zero (by omega : fuel ≠ 0)
        rw [Nat.succ_eq_add_one, swapInLoop_evict hfind hdisk hocc hv,
          hloop fuel _ (by omega)]
        simp

/-- INTERNAL: after the first `k` process memories of the eviction order were put in disk, the
rest of it is the eviction order of the others. -/
theorem evictionOrder_releaseAll (hP : Partition M m) (hes : EvictionOrder m.procMems es) (k : ℕ) :
    EvictionOrder (releaseAll m (es.take k)).procMems (es.drop k) := by
  induction k generalizing m es with
  | zero => exact hes
  | succ k ih =>
    cases es with
    | nil => exact hes
    | cons e es =>
      obtain ⟨hmem, hres⟩ := mem_residents.mp (hes.perm.mem_iff.mp List.mem_cons_self)
      exact ih (partition_release hP hmem hres) (evictionOrder_release hP hes)

/-- INTERNAL: these are in main memory then. -/
theorem residents_releaseAll_take (hP : Partition M m) (hes : EvictionOrder m.procMems es)
    (k : ℕ) {q : ProcessMemory} :
    q ∈ residents (releaseAll m (es.take k)).procMems ↔ q ∈ es.drop k :=
  (evictionOrder_releaseAll hP hes k).perm.mem_iff.symm

/-- INTERNAL: the holes after the first `k` process memories of the eviction order were put in
disk. -/
theorem hole_releaseAll_take (hP : Partition M m) (hes : EvictionOrder m.procMems es)
    (k : ℕ) (s : Span) :
    Hole M (residents (releaseAll m (es.take k)).procMems) s ↔ Hole M (es.drop k) s := by
  unfold Hole
  rw [freeAddresses_congr fun q => residents_releaseAll_take hP hes k]

/-- INTERNAL: there is room in the free list after the first `k` process memories of the eviction
order were put in disk exactly if one of the holes is large enough. -/
theorem occupy_releaseAll_take (hP : Partition M m) (hes : EvictionOrder m.procMems es)
    (hpart : ∀ j, Partition M (releaseAll m (es.take j))) (size : ℤ) (k : ℕ) :
    occupyFreeMemorySegment size (releaseAll m (es.take k)).memSegs = none ↔
      ¬ ∃ s, Hole M (es.drop k) s ∧ size ≤ s.len := by
  simp only [occupy_eq_none_iff (hpart k), hole_releaseAll_take hP hes k]

/-- INTERNAL: the process memories when `p` is placed after the first `k` of the eviction order
were put in disk. -/
theorem procMems_placed (hP : Partition M m) (hes : EvictionOrder m.procMems es)
    {p : ProcessMemory} (hp : p ∈ m.procMems) {k : ℕ} (hpnot : p ∉ es.take k)
    (startAddress time : ℤ) :
    (releaseAll m (es.take k)).procMems.map (fun q =>
        if q.ptr = p.ptr then q.swappedIn startAddress time else q) =
      m.procMems.map fun q =>
        if q = p then q.swappedIn startAddress time
        else if q ∈ es.take k then q.swappedOut else q := by
  have hnodup := (evictionOrder_nodup hP hes).sublist (List.take_sublist k es)
  rw [procMems_releaseAll hP hnodup (evictionOrder_mem_take hes k), List.map_map]
  apply List.map_congr_left
  intro q hq
  by_cases hqp : q = p
  · subst hqp
    simp only [Function.comp_apply, if_neg hpnot, if_true]
  · have hptr : q.ptr ≠ p.ptr := by
      intro heq
      exact hqp (List.inj_on_of_nodup_map hP.pointers hq hp heq)
    have hptr' : (if q ∈ es.take k then q.swappedOut else q).ptr ≠ p.ptr := by
      split <;> exact hptr
    simp only [Function.comp_apply, if_neg hptr', if_neg hqp]

/-- **Swapping in is greedy eviction and first fit.** Let the process memories in main
memory be `es` in the eviction order: larger ones first, then those longer in memory, then
those later on the list. From every partition, swapping in a process memory `p` that is in
disk and not larger than main memory returns, and `k` being the least number such that
after freeing the first `k` of `es` some hole has room for `p`: exactly these `k` have
gone to disk, with a swap-in time of zero; `p` starts at the top of the highest hole with
room for it and has the current time as swap-in time; and every other process memory, the
order of the list, all sizes and all process ids are as before.
SOURCE: memory-management.c:351-456 -/
theorem swapInProcessMemory_greedy (M : ℤ) (m : Memory) (hP : Partition M m)
    (p : ProcessMemory) (hp : p ∈ m.procMems) (hdisk : isProcessMemoryInDisk p = true)
    (hsize : p.size ≤ M) (time : ℤ) :
    ∃ es, EvictionOrder m.procMems es ∧ ∃ k ≤ es.length,
      IsLeast {j | ∃ s, Hole M (es.drop j) s ∧ p.size ≤ s.len} k ∧
      ∃ startAddress,
        IsGreatest {x | ∃ s, Hole M (es.drop k) s ∧ p.size ≤ s.len ∧ s.top = x} startAddress ∧
        ∃ m', swapInProcessMemory p.ptr time m = .ok (m', (es.take k).map ProcessMemory.ptr) ∧
          Partition M m' ∧
          m'.procMems = m.procMems.map fun q =>
            if q = p then q.swappedIn startAddress time
            else if q ∈ es.take k then q.swappedOut else q := by
  obtain ⟨es, hes⟩ := exists_evictionOrder hP.pointers
  have hnodup := evictionOrder_nodup hP hes
  have hpart : ∀ j, Partition M (releaseAll m (es.take j)) := by
    intro j
    exact partition_releaseAll hP (hnodup.sublist (List.take_sublist j es))
      (evictionOrder_mem_take hes j)
  have hfind := find_of_mem hP.pointers hp
  obtain ⟨k, hk, hbefore, startAddress, memSegs, hfit, hloop⟩ :=
    swapInLoop_greedy time hP hes hfind hdisk hsize
  have hroom := occupy_releaseAll_take hP hes hpart p.size
  have hpnot : p ∉ es.take k := by
    intro hmem
    have := (mem_residents.mp (evictionOrder_mem_take hes k p hmem)).2
    rw [hdisk] at this
    simp at this
  have hpmem : p ∈ (releaseAll m (es.take k)).procMems := by
    rw [procMems_releaseAll hP (hnodup.sublist (List.take_sublist k es))
      (evictionOrder_mem_take hes k), List.mem_map]
    exact ⟨p, hp, by rw [if_neg hpnot]⟩
  refine ⟨es, hes, k, hk, ⟨?_, ?_⟩, startAddress, ?_, _, ?_,
    (partition_occupy (hpart k) hpmem hdisk hfit time).1, ?_⟩
  · by_contra hno
    have hnone := (hroom k).mpr hno
    rw [hfit] at hnone
    simp at hnone
  · intro j hj
    by_contra hlt
    exact (hroom j).mp (hbefore j (by omega)) hj
  · have hgreatest := occupy_isGreatest (hpart k) hfit
    simpa only [hole_releaseAll_take hP hes k] using hgreatest
  · have hlen : es.length ≤ m.procMems.length := by
      rw [hes.perm.length_eq]
      exact List.length_filter_le _ _
    unfold swapInProcessMemory
    rw [hloop _ _ (by omega), List.nil_append]
  · exact procMems_placed hP hes hp hpnot startAddress time

/-- A main memory of 100 in which one process memory of 60 leaves a hole of 40, and another one
of 50 is in disk. -/
def halfFullMemory : Memory :=
  { memSegs := [⟨40, 40⟩], procMems := [⟨0, 100, 60, 0, 1⟩, ⟨1, inDisk, 50, 0, 2⟩], allocated := 2 }

/-- INTERNAL: the process memory and the hole are all of main memory. -/
theorem partition_halfFullMemory : Partition 100 halfFullMemory where
  coalesced := ⟨List.isChain_singleton _, by simp [freeSpans, halfFullMemory, segmentSpan]⟩
  exact := by
    intro x
    have hres : residents halfFullMemory.procMems = [⟨0, 100, 60, 0, 1⟩] := rfl
    rw [residentSpans, hres]
    simp only [freeSpans, halfFullMemory, List.map_cons, List.map_nil, depth_cons, depth_nil,
      segmentSpan, processSpan, Span.mem_points, Span.bottom]
    split_ifs <;> omega
  sizes := by simp [halfFullMemory]
  pointers := by simp [halfFullMemory]
  allocated := by simp [halfFullMemory]

/-- The process memory of 50 does not fit into the hole of 40: the other one goes to disk.
SOURCE: memory-management.c:351-456 -/
theorem swapInProcessMemory_greedy_halfFull :
    ∃ m' victims, swapInProcessMemory 1 7 halfFullMemory = .ok (m', victims) ∧
      Partition 100 m' := by
  obtain ⟨es, -, k, -, -, startAddress, -, m', hok, hP, -⟩ :=
    swapInProcessMemory_greedy 100 halfFullMemory partition_halfFullMemory
      ⟨1, inDisk, 50, 0, 2⟩ (by simp [halfFullMemory]) rfl (by decide) 7
  exact ⟨m', _, hok, hP⟩

example : swapInProcessMemory 1 7 halfFullMemory =
    .ok ({ memSegs := [⟨50, 50⟩],
           procMems := [⟨0, inDisk, 60, 0, 1⟩, ⟨1, 100, 50, 7, 2⟩], allocated := 2 }, [0]) := by
  rfl

/-- `n` calls of `swap_out_process_memory`, one after the other. -/
def swapOuts : ℕ → Memory → Except Fault Memory
  | 0, m => .ok m
  | n + 1, m =>
    match swapOutProcessMemory m with
    | .error e => .error e
    | .ok (_, m') => swapOuts n m'

/-- INTERNAL: calls of `swap_out_process_memory` go through the eviction order.
SOURCE: memory-management.c:405-456 -/
theorem swapOuts_eq (hP : Partition M m) (hes : EvictionOrder m.procMems es) {n : ℕ}
    (hn : n ≤ es.length) : swapOuts n m = .ok (releaseAll m (es.take n)) := by
  induction n generalizing m es with
  | zero => rfl
  | succ n ih =>
    cases es with
    | nil => simp at hn
    | cons e es =>
      have hv := findSwapOut_of_order hP hes
      obtain ⟨hmem, hres⟩ := mem_residents.mp (findSwapOut_mem hv)
      have hrest := ih (partition_release hP hmem hres) (evictionOrder_release hP hes)
        (by simpa using hn)
      simp only [swapOuts, swapOutProcessMemory, hv, hrest, List.take_succ_cons, releaseAll_cons]

/-- **The eviction loop terminates.** From every partition, for every process memory of the
list that is not larger than main memory, the loop of `swap_in_process_memory` ends, with
whatever budget of rounds above the number of process memories in main memory. It has
called `swap_out_process_memory` at most once for each of these, every time in a state
with a process memory in main memory, and it ends with the requested process memory in main
memory.
SOURCE: memory-management.c:351-456 -/
theorem swapInProcessMemory_terminates (M : ℤ) (m : Memory) (hP : Partition M m)
    (p : ProcessMemory) (hp : p ∈ m.procMems) (hsize : p.size ≤ M) (time : ℤ) :
    ∃ m' victims,
      (∀ fuel, (residents m.procMems).length < fuel →
        swapInLoop p.ptr time fuel m [] = .ok (m', victims)) ∧
      swapInProcessMemory p.ptr time m = .ok (m', victims) ∧
      victims.length ≤ (residents m.procMems).length ∧
      (∀ i < victims.length, ∃ mᵢ, swapOuts i m = .ok mᵢ ∧ residents mᵢ.procMems ≠ []) ∧
      ∃ p', m'.find p.ptr = some p' ∧ isProcessMemoryInDisk p' = false := by
  have hfind := find_of_mem hP.pointers hp
  have hlen : (residents m.procMems).length ≤ m.procMems.length := List.length_filter_le _ _
  cases hdisk : isProcessMemoryInDisk p with
  | false =>
    refine ⟨m, [], ?_, swapInProcessMemory_resident hfind hdisk, by simp, by simp, p, hfind, hdisk⟩
    intro fuel hfuel
    obtain ⟨fuel, rfl⟩ := Nat.exists_eq_succ_of_ne_zero (by omega : fuel ≠ 0)
    simp only [swapInLoop, hfind, hdisk, Bool.false_eq_true, if_false]
  | true =>
    obtain ⟨es, hes⟩ := exists_evictionOrder hP.pointers
    obtain ⟨k, hk, -, startAddress, memSegs, hfit, hloop⟩ :=
      swapInLoop_greedy time hP hes hfind hdisk hsize
    obtain ⟨-, hlarge⟩ | ⟨m', victims, hok, hsw⟩ :=
      swapInProcessMemory_spec time hP hfind hdisk
    · have hpos := hP.sizes p hp
      have := hlarge (by omega)
      omega
    have hr : es.length = (residents m.procMems).length := hes.perm.length_eq
    have heq := hloop (m.procMems.length + 1) [] (by omega)
    have hsame := hok
    unfold swapInProcessMemory at hsame
    rw [heq, List.nil_append, Except.ok.injEq, Prod.mk.injEq] at hsame
    obtain ⟨hm', hvictims⟩ := hsame
    have hlength : victims.length = k := by
      rw [← hvictims, List.length_map, List.length_take]
      omega
    refine ⟨m', victims, ?_, hok, by omega, ?_, ?_⟩
    · intro fuel hfuel
      rw [hloop fuel [] (by omega), List.nil_append, hm', hvictims]
    · intro i hi
      refine ⟨_, swapOuts_eq hP hes (by omega), ?_⟩
      -- the next of the order is still in main memory
      have hlt : i < es.length := by omega
      have hnext : es[i] ∈ es.drop i := by
        rw [List.drop_eq_getElem_cons hlt]
        exact List.mem_cons_self
      rw [← residents_releaseAll_take hP hes i] at hnext
      exact List.ne_nil_of_mem hnext
    · obtain ⟨_, startAddress, -, hfound, hres⟩ := hsw.target
      exact ⟨_, hfound, hres⟩

/-- Swapping in the process memory of 50 takes one round more than it takes to fail at first.
SOURCE: memory-management.c:351-456 -/
theorem swapInProcessMemory_terminates_halfFull :
    ∃ m' victims, swapInProcessMemory 1 7 halfFullMemory = .ok (m', victims) ∧
      victims.length ≤ 1 := by
  obtain ⟨m', victims, -, hok, hle, -⟩ :=
    swapInProcessMemory_terminates 100 halfFullMemory partition_halfFullMemory
      ⟨1, inDisk, 50, 0, 2⟩ (by simp [halfFullMemory]) (by decide) 7
  exact ⟨m', victims, hok, hle⟩

end Comp30023.Analysis
