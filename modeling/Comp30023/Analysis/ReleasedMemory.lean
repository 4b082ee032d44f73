import Comp30023.Analysis.Holes
import Comp30023.Analysis.SwapIn

/-!
# Giving back several process memories

`releaseAll` puts a list of process memories in disk, one after the other. What it
leaves depends on which process memories these are: the others are in main memory as
before, and the free list, being the coalesced list of the addresses they leave free,
is determined by them (`memSegs_eq_of_residents`), whatever was merged with what on the
way.
-/

set_option autoImplicit false

namespace Comp30023.Analysis

open Comp30023.Library Comp30023.Model Comp30023.Interface

/-- The state after the process memories have been put in disk in this order. -/
def releaseAll (m : Memory) (es : List ProcessMemory) : Memory := es.foldl Memory.release m

@[simp] theorem releaseAll_nil (m : Memory) : releaseAll m [] = m := rfl

@[simp] theorem releaseAll_cons (m : Memory) (e : ProcessMemory) (es : List ProcessMemory) :
    releaseAll m (e :: es) = releaseAll (m.release e) es := rfl

/-- Two partitions with the same process memories in main memory have the same free list. -/
theorem memSegs_eq_of_residents {M : ℤ} {m m' : Memory} (hP : Partition M m)
    (hP' : Partition M m') (h : ∀ p, p ∈ residents m.procMems ↔ p ∈ residents m'.procMems) :
    m.memSegs = m'.memSegs := by
  have hcover : covered (freeSpans m) = covered (freeSpans m') := by
    rw [covered_freeSpans hP, covered_freeSpans hP', freeAddresses_congr h]
  have hspans : freeSpans m = freeSpans m' := by
    apply hP.coalesced.unique hP'.coalesced
    intro x
    have hx : 0 < depth (freeSpans m) x ↔ 0 < depth (freeSpans m') x := by
      have := Set.ext_iff.mp hcover x
      simpa only [covered, Set.mem_ofPred_eq] using this
    have hex := hP.exact x
    have hex' := hP'.exact x
    split at hex <;> split at hex' <;> omega
  have hinj : Function.Injective segmentSpan := by
    rintro ⟨a, b⟩ ⟨c, d⟩ heq
    simpa [segmentSpan] using heq
  exact List.map_injective_iff.mpr hinj hspans

variable {M : ℤ} {m : Memory}

/-- INTERNAL: a process memory that is put in disk stays where it is on the list.
SOURCE: memory-management.c:452-453 -/
theorem procMems_release (hP : Partition M m) {e : ProcessMemory}
    (he : e ∈ residents m.procMems) : ∃ l₁ l₂, m.procMems = l₁ ++ e :: l₂ ∧
      (m.release e).procMems = l₁ ++ e.swappedOut :: l₂ ∧
      (residents m.procMems).Perm (e :: residents (m.release e).procMems) := by
  obtain ⟨hmem, hres⟩ := mem_residents.mp he
  obtain ⟨l₁, l₂, hl⟩ := List.append_of_mem hmem
  have hsplit : (m.release e).procMems = l₁ ++ e.swappedOut :: l₂ :=
    modify_split (m := { m with memSegs := _ }) hl hP.pointers _
  refine ⟨l₁, l₂, hl, hsplit, ?_⟩
  rw [hl, hsplit, residents_append, residents_append, residents_cons_resident hres,
    residents_cons_inDisk (isProcessMemoryInDisk_swappedOut e)]
  exact List.perm_middle

/-- INTERNAL: the process memories in main memory are pairwise different. -/
theorem residents_nodup (hP : Partition M m) : (residents m.procMems).Nodup :=
  hP.pointers.of_map.filter _

/-- INTERNAL: all but the process memory that was put in disk are still in main memory. -/
theorem mem_residents_release (hP : Partition M m) {e q : ProcessMemory}
    (he : e ∈ residents m.procMems) :
    q ∈ residents (m.release e).procMems ↔ q ∈ residents m.procMems ∧ q ≠ e := by
  obtain ⟨-, -, -, -, hperm⟩ := procMems_release hP he
  have hnodup := hperm.nodup_iff.mp (residents_nodup hP)
  rw [hperm.mem_iff, List.mem_cons]
  constructor
  · intro hq
    refine ⟨Or.inr hq, ?_⟩
    rintro rfl
    exact (List.nodup_cons.mp hnodup).1 hq
  · rintro ⟨rfl | hq, hne⟩
    · exact absurd rfl hne
    · exact hq

/-- INTERNAL: what is still to be put in disk stays in main memory until its turn. -/
theorem mem_residents_of_nodup_cons (hP : Partition M m) {e : ProcessMemory}
    {es : List ProcessMemory} (hnodup : (e :: es).Nodup)
    (hes : ∀ q ∈ e :: es, q ∈ residents m.procMems) :
    ∀ q ∈ es, q ∈ residents (m.release e).procMems := by
  intro q hq
  rw [mem_residents_release hP (hes e List.mem_cons_self)]
  refine ⟨hes q (List.mem_cons_of_mem _ hq), ?_⟩
  rintro rfl
  exact (List.nodup_cons.mp hnodup).1 hq

/-- Putting process memories in disk keeps the partition. -/
theorem partition_releaseAll {es : List ProcessMemory} (hP : Partition M m) (hnodup : es.Nodup)
    (hes : ∀ q ∈ es, q ∈ residents m.procMems) : Partition M (releaseAll m es) := by
  induction es generalizing m with
  | nil => exact hP
  | cons e es ih =>
    obtain ⟨hmem, hres⟩ := mem_residents.mp (hes e List.mem_cons_self)
    exact ih (partition_release hP hmem hres) hnodup.tail
      (mem_residents_of_nodup_cons hP hnodup hes)

/-- The process memories that were put in disk are in disk, all others are as before. -/
theorem procMems_releaseAll {es : List ProcessMemory} (hP : Partition M m) (hnodup : es.Nodup)
    (hes : ∀ q ∈ es, q ∈ residents m.procMems) :
    (releaseAll m es).procMems = m.procMems.map fun q => if q ∈ es then q.swappedOut else q := by
  induction es generalizing m with
  | nil => simp
  | cons e es ih =>
    obtain ⟨hmem, hres⟩ := mem_residents.mp (hes e List.mem_cons_self)
    rw [releaseAll_cons, ih (partition_release hP hmem hres) hnodup.tail
      (mem_residents_of_nodup_cons hP hnodup hes)]
    show (m.procMems.map _).map _ = _
    rw [List.map_map]
    apply List.map_congr_left
    intro q hq
    by_cases hqe : q = e
    · subst hqe
      simp only [Function.comp_apply, if_true, List.mem_cons, true_or]
      split <;> rfl
    · have hptr : q.ptr ≠ e.ptr := by
        intro heq
        exact hqe (List.inj_on_of_nodup_map hP.pointers hq hmem heq)
      simp only [Function.comp_apply, hptr, if_false, List.mem_cons, hqe, false_or]

/-- The process memories in main memory after some were put in disk. -/
theorem mem_residents_releaseAll {es : List ProcessMemory} (hP : Partition M m)
    (hnodup : es.Nodup) (hes : ∀ q ∈ es, q ∈ residents m.procMems) {q : ProcessMemory} :
    q ∈ residents (releaseAll m es).procMems ↔ q ∈ residents m.procMems ∧ q ∉ es := by
  induction es generalizing m with
  | nil => simp
  | cons e es ih =>
    obtain ⟨hmem, hres⟩ := mem_residents.mp (hes e List.mem_cons_self)
    rw [releaseAll_cons, ih (partition_release hP hmem hres) hnodup.tail
      (mem_residents_of_nodup_cons hP hnodup hes), mem_residents_release hP
      (hes e List.mem_cons_self), List.mem_cons]
    tauto

end Comp30023.Analysis
