import Comp30023.Analysis.ReleasedMemory

/-!
# Freeing does not depend on the order

Process memories leave main memory by going to disk or by leaving the list. Each time the
freed run is inserted into the free list and merged with what it touches, so that two
orders go through different lists. They end in the same one, because in the end the same
process memories are in main memory, and the free list of a partition is determined by
these.
-/

set_option autoImplicit false

namespace Comp30023.Analysis

open Comp30023.Library Comp30023.Model Comp30023.Interface

/-- Calls of `swap_out_process_memory_by_process_memory`, one after the other. -/
def swapOutAll (ptrs : List ℕ) (m : Memory) : Except Fault Memory :=
  ptrs.foldlM (fun m ptr => swapOutProcessMemoryByProcessMemory ptr m) m

/-- Calls of `remove_process_memory_by_process_id`, one after the other. -/
def removeAll (processIds : List ℤ) (m : Memory) : Memory :=
  processIds.foldl (fun m processId => (removeProcessMemoryByProcessId processId m).2) m

variable {M : ℤ} {m : Memory} {es : List ProcessMemory}

/-- INTERNAL: swapping out process memories that are in main memory puts them in disk, one
after the other.
SOURCE: memory-management.c:458-476 -/
theorem swapOutAll_eq (hP : Partition M m) (hnodup : es.Nodup)
    (hes : ∀ q ∈ es, q ∈ residents m.procMems) :
    swapOutAll (es.map ProcessMemory.ptr) m = .ok (releaseAll m es) := by
  induction es generalizing m with
  | nil => rfl
  | cons e es ih =>
    obtain ⟨hmem, hres⟩ := mem_residents.mp (hes e List.mem_cons_self)
    have hfind := find_of_mem hP.pointers hmem
    have hstep : swapOutProcessMemoryByProcessMemory e.ptr m = .ok (m.release e) := by
      simp only [swapOutProcessMemoryByProcessMemory, hfind, hres, Bool.false_eq_true, if_false]
    have hrest := ih (partition_release hP hmem hres) hnodup.tail
      (mem_residents_of_nodup_cons hP hnodup hes)
    unfold swapOutAll at hrest ⊢
    rw [List.map_cons, List.foldlM_cons, hstep]
    exact hrest

/-- INTERNAL: with pairwise different process ids, unlinking an id leaves what has another id.
SOURCE: memory-management.c:283-325 -/
theorem unlinkProcessId_rest {l : List ProcessMemory} (processId : ℤ)
    (hids : (l.map ProcessMemory.processId).Nodup) :
    ((unlinkProcessId processId l).map Prod.snd).getD l =
      l.filter fun q => decide (q.processId ≠ processId) := by
  induction l with
  | nil => rfl
  | cons p l ih =>
    rw [List.map_cons, List.nodup_cons] at hids
    have hrest := ih hids.2
    unfold unlinkProcessId
    by_cases hid : p.processId = processId
    · have hkeep : l.filter (fun q => decide (q.processId ≠ processId)) = l := by
        apply List.filter_eq_self.mpr
        intro q hq
        simp only [decide_eq_true_eq]
        intro heq
        exact hids.1 (List.mem_map.mpr ⟨q, hq, heq.trans hid.symm⟩)
      rw [if_pos hid, List.filter_cons_of_neg (by simp [hid]), hkeep]
      rfl
    · rw [if_neg hid, List.filter_cons_of_pos (by simp [hid]), ← hrest]
      cases unlinkProcessId processId l with
      | none => rfl
      | some found => rfl

/-- INTERNAL: with pairwise different process ids, a removal leaves what has another id.
SOURCE: memory-management.c:267-329 -/
theorem procMems_remove (processId : ℤ) (hids : (m.procMems.map ProcessMemory.processId).Nodup) :
    (removeProcessMemoryByProcessId processId m).2.procMems =
      m.procMems.filter fun q => decide (q.processId ≠ processId) := by
  rw [← unlinkProcessId_rest processId hids]
  unfold removeProcessMemoryByProcessId
  cases unlinkProcessId processId m.procMems with
  | none => rfl
  | some found =>
    obtain ⟨p, rest⟩ := found
    simp only
    split <;> rfl

/-- INTERNAL: removals keep the partition, and with pairwise different process ids leave what
has none of the ids.
SOURCE: memory-management.c:267-329 -/
theorem removeAll_spec (processIds : List ℤ) (hP : Partition M m)
    (hids : (m.procMems.map ProcessMemory.processId).Nodup) :
    Partition M (removeAll processIds m) ∧
      ∀ q, q ∈ (removeAll processIds m).procMems ↔
        q ∈ m.procMems ∧ q.processId ∉ processIds := by
  induction processIds generalizing m with
  | nil => exact ⟨hP, by simp [removeAll]⟩
  | cons processId processIds ih =>
    have hprocs := procMems_remove processId hids
    have hids' : ((removeProcessMemoryByProcessId processId m).2.procMems.map
        ProcessMemory.processId).Nodup := by
      rw [hprocs]
      exact hids.sublist (List.filter_sublist.map _)
    obtain ⟨hP', hmem⟩ := ih (partition_remove hP processId) hids'
    refine ⟨hP', ?_⟩
    intro q
    show q ∈ (removeAll processIds (removeProcessMemoryByProcessId processId m).2).procMems ↔ _
    rw [hmem q, hprocs, List.mem_filter, List.mem_cons, decide_eq_true_eq]
    tauto

/-- INTERNAL: removing the ids of process memories in main memory leaves the others there. -/
theorem mem_residents_removeAll (hP : Partition M m)
    (hids : (m.procMems.map ProcessMemory.processId).Nodup)
    (hes : ∀ q ∈ es, q ∈ residents m.procMems) {q : ProcessMemory} :
    q ∈ residents (removeAll (es.map ProcessMemory.processId) m).procMems ↔
      q ∈ residents m.procMems ∧ q ∉ es := by
  rw [mem_residents, (removeAll_spec _ hP hids).2 q, mem_residents]
  have hid : q ∈ m.procMems → (q.processId ∈ es.map ProcessMemory.processId ↔ q ∈ es) := by
    intro hq
    constructor
    · intro hmem
      obtain ⟨e, he, heq⟩ := List.mem_map.mp hmem
      have hsame : e = q :=
        List.inj_on_of_nodup_map hids (mem_residents.mp (hes e he)).1 hq heq
      rw [← hsame]
      exact he
    · exact List.mem_map_of_mem
  constructor
  · rintro ⟨⟨hq, hnot⟩, hres⟩
    exact ⟨⟨hq, hres⟩, fun hqe => hnot ((hid hq).mpr hqe)⟩
  · rintro ⟨⟨hq, hres⟩, hnot⟩
    exact ⟨⟨hq, fun hmem => hnot ((hid hq).mp hmem)⟩, hres⟩

/-- **Freeing does not depend on the order.** From every partition and for every set of
process memories in main memory there is one free list that remains after they have been
swapped out one after the other, in whatever order, and, when the process ids on the list
are pairwise different, also after they have been removed by their ids, in whatever order.
When they are all process memories in main memory, it is the single segment of all of main
memory.
SOURCE: memory-management.c:50-161, 267-329, 458-476 -/
theorem release_order_independent (M : ℤ) (hM : 1 ≤ M) (m : Memory) (hP : Partition M m)
    (es : List ProcessMemory) (hnodup : es.Nodup) (hes : ∀ q ∈ es, q ∈ residents m.procMems) :
    ∃ memSegs,
      (∀ σ : List ProcessMemory, σ.Perm es →
        ∃ m', swapOutAll (σ.map ProcessMemory.ptr) m = .ok m' ∧ m'.memSegs = memSegs) ∧
      ((m.procMems.map ProcessMemory.processId).Nodup →
        ∀ σ : List ProcessMemory, σ.Perm es →
          (removeAll (σ.map ProcessMemory.processId) m).memSegs = memSegs) ∧
      ((∀ q ∈ residents m.procMems, q ∈ es) → memSegs = [⟨M, M⟩]) := by
  have hpart := partition_releaseAll hP hnodup hes
  refine ⟨(releaseAll m es).memSegs, ?_, ?_, ?_⟩
  · intro σ hσ
    have hσnodup := hσ.nodup_iff.mpr hnodup
    have hσes : ∀ q ∈ σ, q ∈ residents m.procMems := by
      intro q hq
      exact hes q (hσ.mem_iff.mp hq)
    refine ⟨releaseAll m σ, swapOutAll_eq hP hσnodup hσes, ?_⟩
    apply memSegs_eq_of_residents (partition_releaseAll hP hσnodup hσes) hpart
    intro q
    rw [mem_residents_releaseAll hP hσnodup hσes, mem_residents_releaseAll hP hnodup hes,
      hσ.mem_iff]
  · intro hids σ hσ
    have hσes : ∀ q ∈ σ, q ∈ residents m.procMems := by
      intro q hq
      exact hes q (hσ.mem_iff.mp hq)
    apply memSegs_eq_of_residents (removeAll_spec _ hP hids).1 hpart
    intro q
    rw [mem_residents_removeAll hP hids hσes, mem_residents_releaseAll hP hnodup hes, hσ.mem_iff]
  · intro hall
    apply partition_memSegs_eq_single hM hpart
    apply List.eq_nil_iff_forall_not_mem.mpr
    intro q hq
    obtain ⟨hres, hnot⟩ := (mem_residents_releaseAll hP hnodup hes).mp hq
    exact hnot (hall q hres)

/-- A main memory of 100 with process memories of 60 and of 30 in it, and a hole of 10 below. -/
def sharedMemory : Memory :=
  { memSegs := [⟨10, 10⟩], procMems := [⟨0, 100, 60, 0, 1⟩, ⟨1, 40, 30, 0, 2⟩], allocated := 2 }

/-- INTERNAL: the process memories and the hole are all of main memory. -/
theorem partition_sharedMemory : Partition 100 sharedMemory where
  coalesced := ⟨List.isChain_singleton _, by simp [freeSpans, sharedMemory, segmentSpan]⟩
  exact := by
    intro x
    have hres : residents sharedMemory.procMems = [⟨0, 100, 60, 0, 1⟩, ⟨1, 40, 30, 0, 2⟩] := rfl
    rw [residentSpans, hres]
    simp only [freeSpans, sharedMemory, List.map_cons, List.map_nil, depth_cons, depth_nil,
      segmentSpan, processSpan, Span.mem_points, Span.bottom]
    split_ifs <;> omega
  sizes := by simp [sharedMemory]
  pointers := by simp [sharedMemory]
  allocated := by simp [sharedMemory]

/-- INTERNAL: the two can be released in both orders and in both ways.
SOURCE: memory-management.c:267-329, 458-476 -/
theorem release_order_independent_shared :
    (∃ m', swapOutAll [0, 1] sharedMemory = .ok m' ∧ m'.memSegs = [⟨100, 100⟩]) ∧
      (∃ m', swapOutAll [1, 0] sharedMemory = .ok m' ∧ m'.memSegs = [⟨100, 100⟩]) ∧
        (removeAll [1, 2] sharedMemory).memSegs = [⟨100, 100⟩] ∧
          (removeAll [2, 1] sharedMemory).memSegs = [⟨100, 100⟩] := by
  have hres : residents sharedMemory.procMems = [⟨0, 100, 60, 0, 1⟩, ⟨1, 40, 30, 0, 2⟩] := rfl
  obtain ⟨memSegs, hswap, hremove, hall⟩ := release_order_independent 100 (by decide) sharedMemory
    partition_sharedMemory [⟨0, 100, 60, 0, 1⟩, ⟨1, 40, 30, 0, 2⟩] (by decide) fun q hq => hq
  have hids := hremove (by decide)
  obtain rfl := hall fun q hq => hq
  exact ⟨hswap [⟨0, 100, 60, 0, 1⟩, ⟨1, 40, 30, 0, 2⟩] (List.Perm.refl _),
    hswap [⟨1, 40, 30, 0, 2⟩, ⟨0, 100, 60, 0, 1⟩] (List.Perm.swap ..),
    hids [⟨0, 100, 60, 0, 1⟩, ⟨1, 40, 30, 0, 2⟩] (List.Perm.refl _),
    hids [⟨1, 40, 30, 0, 2⟩, ⟨0, 100, 60, 0, 1⟩] (List.Perm.swap ..)⟩

end Comp30023.Analysis
