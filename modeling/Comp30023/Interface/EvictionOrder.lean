import Comp30023.Interface.MemoryLayout
import Mathlib.Data.List.Perm.Basic

/-!
# The order in which process memories are swapped out

The comment of `swap_out_process_memory` asks for the largest process memory, and for
the one that has been in memory longest among the largest. `EvictedBefore` is that
order, with ties left to the position on the list, the later one first. It puts the
process memories in main memory in one order (`exists_evictionOrder`), and the two
search loops of `swap_out_process_memory` find the first of it (`findSwapOut_eq_head`).
-/

set_option autoImplicit false

namespace Comp30023.Interface

open Comp30023.Model

/-- Where on the list the process memory stands. -/
def position (procMems : List ProcessMemory) (p : ProcessMemory) : ℕ :=
  (procMems.map ProcessMemory.ptr).idxOf p.ptr

/-- The process memory `p` is swapped out before `q`: it is larger, or as large and longer
in memory, or as large, as long in memory and later on the list.
SOURCE: memory-management.h:97-99 -/
def EvictedBefore (procMems : List ProcessMemory) (p q : ProcessMemory) : Prop :=
  q.size < p.size ∨ q.size = p.size ∧ (p.swapInTime < q.swapInTime ∨
    p.swapInTime = q.swapInTime ∧ position procMems q < position procMems p)

instance (procMems : List ProcessMemory) (p q : ProcessMemory) :
    Decidable (EvictedBefore procMems p q) :=
  inferInstanceAs (Decidable (_ ∨ _))

/-- The comparison loop takes `p` although it already has `q`.
SOURCE: memory-management.c:430-440 -/
def Replaces (p q : ProcessMemory) : Prop :=
  q.size < p.size ∨ q.size = p.size ∧ p.swapInTime ≤ q.swapInTime

/-- The comparison loop keeps `p` when it comes to `q`.
SOURCE: memory-management.c:430-440 -/
def Withstands (p q : ProcessMemory) : Prop :=
  q.size < p.size ∨ q.size = p.size ∧ p.swapInTime < q.swapInTime

/-- The process memories in main memory, in the order in which they are swapped out. -/
structure EvictionOrder (procMems es : List ProcessMemory) : Prop where
  perm : es.Perm (residents procMems)
  ordered : es.Pairwise (EvictedBefore procMems)

variable {procMems es : List ProcessMemory} {p q : ProcessMemory}

theorem Replaces.trans {r : ProcessMemory} (h : Replaces p q) (h' : Replaces q r) :
    Replaces p r := by
  unfold Replaces at *
  omega

theorem Withstands.replaces (h : Withstands p q) : Replaces p q := by
  unfold Withstands Replaces at *
  omega

theorem Withstands.irrefl (p : ProcessMemory) : ¬ Withstands p p := by
  unfold Withstands
  omega

theorem EvictedBefore.asymm (h : EvictedBefore procMems p q) : ¬ EvictedBefore procMems q p := by
  unfold EvictedBefore at *
  omega

/-- INTERNAL: with pairwise different pointers, two process memories of the list at the same
position are the same. -/
theorem eq_of_position (hptr : (procMems.map ProcessMemory.ptr).Nodup) (hp : p ∈ procMems)
    (hq : q ∈ procMems) (h : position procMems p = position procMems q) : p = q := by
  have heq : p.ptr = q.ptr := (List.idxOf_inj (List.mem_map_of_mem hp)).mp h
  exact List.inj_on_of_nodup_map hptr hp hq heq

/-- INTERNAL: of two process memories of the list one is swapped out before the other. -/
theorem evictedBefore_total (hptr : (procMems.map ProcessMemory.ptr).Nodup) (hp : p ∈ procMems)
    (hq : q ∈ procMems) (hne : p ≠ q) (h : ¬ EvictedBefore procMems q p) :
    EvictedBefore procMems p q := by
  have hpos : position procMems p ≠ position procMems q := by
    intro heq
    exact hne (eq_of_position hptr hp hq heq)
  unfold EvictedBefore at *
  omega

/-- The process memories in main memory have an eviction order. -/
theorem exists_evictionOrder (hptr : (procMems.map ProcessMemory.ptr).Nodup) :
    ∃ es, EvictionOrder procMems es := by
  let le : ProcessMemory → ProcessMemory → Bool := fun p q => decide (¬ EvictedBefore procMems q p)
  have htrans : ∀ p q r, le p q = true → le q r = true → le p r = true := by
    intro p q r hpq hqr
    simp only [le, decide_eq_true_eq] at *
    unfold EvictedBefore at *
    omega
  have htotal : ∀ p q, (le p q || le q p) = true := by
    intro p q
    by_cases h : EvictedBefore procMems q p
    · simp [le, h.asymm]
    · simp [le, h]
  have hperm := List.mergeSort_perm (residents procMems) le
  refine ⟨(residents procMems).mergeSort le, hperm, ?_⟩
  have hnodup : ((residents procMems).mergeSort le).Nodup :=
    hperm.nodup_iff.mpr (hptr.of_map.filter _)
  have hmem : ∀ p ∈ (residents procMems).mergeSort le, p ∈ procMems := by
    intro p hp
    exact (mem_residents.mp (hperm.mem_iff.mp hp)).1
  apply List.Pairwise.imp_of_mem _ ((List.pairwise_mergeSort htrans htotal _).and hnodup)
  intro p q hp hq hpq
  exact evictedBefore_total hptr (hmem p hp) (hmem q hq) hpq.2 (by simpa [le] using hpq.1)

/-! ## The search loops -/

/-- INTERNAL: a larger process memory, or one that is as large and was swapped in no later,
becomes the candidate of the comparison loop; any other does not.
SOURCE: memory-management.c:425-443 -/
theorem selectSwapOut_cons (best p : ProcessMemory) (rest : List ProcessMemory)
    (hp : isProcessMemoryInDisk p = false) :
    (Replaces p best ∧ selectSwapOut best (p :: rest) = selectSwapOut p rest) ∨
      (Withstands best p ∧ selectSwapOut best (p :: rest) = selectSwapOut best rest) := by
  unfold Replaces Withstands
  simp only [selectSwapOut, hp, Bool.false_eq_true, if_false]
  split_ifs with hlarger hequal
  · exact Or.inl ⟨Or.inl hlarger, rfl⟩
  · exact Or.inl ⟨Or.inr ⟨hequal.1.symm, hequal.2⟩, rfl⟩
  · exact Or.inr ⟨by omega, rfl⟩

/-- INTERNAL: the comparison loop ends with its first candidate, when that withstands all that
follow, or with the last of the best that follow.
SOURCE: memory-management.c:425-443 -/
theorem selectSwapOut_split (best : ProcessMemory) (l : List ProcessMemory) :
    (selectSwapOut best l = best ∧ ∀ q ∈ residents l, Withstands best q) ∨
    ∃ l₁ v l₂, selectSwapOut best l = v ∧ l = l₁ ++ v :: l₂ ∧ isProcessMemoryInDisk v = false ∧
      (∀ q ∈ best :: residents l₁, Replaces v q) ∧ ∀ q ∈ residents l₂, Withstands v q := by
  induction l generalizing best with
  | nil => exact Or.inl ⟨rfl, by simp [residents]⟩
  | cons p rest ih =>
    by_cases hdisk : isProcessMemoryInDisk p = true
    · rw [selectSwapOut, if_pos hdisk, residents_cons_inDisk hdisk]
      rcases ih best with h | ⟨l₁, v, l₂, hv, hl, hres, hbefore, hafter⟩
      · exact Or.inl h
      · refine Or.inr ⟨p :: l₁, v, l₂, hv, by rw [hl]; rfl, hres, ?_, hafter⟩
        rw [residents_cons_inDisk hdisk]
        exact hbefore
    · have hp : isProcessMemoryInDisk p = false := by simpa using hdisk
      rw [residents_cons_resident hp]
      rcases selectSwapOut_cons best p rest hp with ⟨hbest, hnext⟩ | ⟨hbest, hnext⟩ <;> rw [hnext]
      · right
        rcases ih p with ⟨heq, hall⟩ | ⟨l₁, v, l₂, hv, hl, hres, hbefore, hafter⟩
        · refine ⟨[], p, rest, heq, rfl, hp, ?_, hall⟩
          intro q hq
          rw [List.mem_singleton.mp hq]
          exact hbest
        · refine ⟨p :: l₁, v, l₂, hv, by rw [hl]; rfl, hres, ?_, hafter⟩
          rw [residents_cons_resident hp]
          intro q hq
          rcases List.mem_cons.mp hq with rfl | hq
          · exact (hbefore p List.mem_cons_self).trans hbest
          · exact hbefore q hq
      · rcases ih best with ⟨heq, hall⟩ | ⟨l₁, v, l₂, hv, hl, hres, hbefore, hafter⟩
        · refine Or.inl ⟨heq, ?_⟩
          intro q hq
          rcases List.mem_cons.mp hq with rfl | hq
          · exact hbest
          · exact hall q hq
        · refine Or.inr ⟨p :: l₁, v, l₂, hv, by rw [hl]; rfl, hres, ?_, hafter⟩
          rw [residents_cons_resident hp]
          have hvb := hbefore best List.mem_cons_self
          intro q hq
          rcases List.mem_cons.mp hq with rfl | hq
          · exact hvb
          · rcases List.mem_cons.mp hq with rfl | hq
            · exact hvb.trans hbest.replaces
            · exact hbefore q (List.mem_cons_of_mem _ hq)

/-- INTERNAL: what is found replaces every process memory in main memory before it on the
list and withstands every one after it.
SOURCE: memory-management.c:410-443 -/
theorem findSwapOut_split {l : List ProcessMemory} {v : ProcessMemory}
    (h : findSwapOut l = some v) :
    ∃ l₁ l₂, l = l₁ ++ v :: l₂ ∧ isProcessMemoryInDisk v = false ∧
      (∀ q ∈ residents l₁, Replaces v q) ∧ ∀ q ∈ residents l₂, Withstands v q := by
  induction l with
  | nil => simp [findSwapOut] at h
  | cons p rest ih =>
    unfold findSwapOut at h
    by_cases hdisk : isProcessMemoryInDisk p = true
    · rw [if_pos hdisk] at h
      obtain ⟨l₁, l₂, rfl, hres, hbefore, hafter⟩ := ih h
      refine ⟨p :: l₁, l₂, rfl, hres, ?_, hafter⟩
      rw [residents_cons_inDisk hdisk]
      exact hbefore
    · rw [if_neg hdisk, Option.some.injEq] at h
      rcases selectSwapOut_split p (p :: rest) with
        ⟨-, hall⟩ | ⟨l₁, w, l₂, hw, hl, hres, hbefore, hafter⟩
      · -- the second loop starts at its own candidate, which does not withstand itself
        have hself := hall p (by rw [residents_cons_resident (by simpa using hdisk)]; simp)
        exact absurd hself (Withstands.irrefl p)
      · rw [h] at hw
        subst hw
        refine ⟨l₁, l₂, hl, hres, ?_, hafter⟩
        intro q hq
        exact hbefore q (List.mem_cons_of_mem _ hq)

/-- INTERNAL: what comes before `v` on the list stands at a smaller position. -/
theorem position_lt_of_mem_left {l₁ l₂ : List ProcessMemory} {v : ProcessMemory}
    (hptr : ((l₁ ++ v :: l₂).map ProcessMemory.ptr).Nodup) (hq : q ∈ l₁) :
    position (l₁ ++ v :: l₂) q < position (l₁ ++ v :: l₂) v := by
  unfold position
  rw [List.map_append, List.map_cons] at *
  have hmem := List.mem_map_of_mem (f := ProcessMemory.ptr) hq
  have hv : v.ptr ∉ l₁.map ProcessMemory.ptr := by
    intro hv
    exact (List.nodup_append.mp hptr).2.2 v.ptr hv v.ptr (by simp) rfl
  have hlt := List.idxOf_lt_length_of_mem hmem
  rw [List.idxOf_append_of_mem hmem, List.idxOf_append_of_notMem hv]
  omega

/-- INTERNAL: what is found is swapped out before every other process memory in main memory.
SOURCE: memory-management.c:410-443 -/
theorem findSwapOut_before (hptr : (procMems.map ProcessMemory.ptr).Nodup)
    (h : findSwapOut procMems = some p) (hq : q ∈ residents procMems) (hne : q ≠ p) :
    EvictedBefore procMems p q := by
  obtain ⟨l₁, l₂, rfl, hres, hbefore, hafter⟩ := findSwapOut_split h
  rw [residents_append, residents_cons_resident hres] at hq
  rcases List.mem_append.mp hq with hq | hq
  · have hreplaces := hbefore q hq
    have hpos := position_lt_of_mem_left hptr (mem_residents.mp hq).1
    unfold Replaces at hreplaces
    unfold EvictedBefore
    omega
  · have hwithstands := hafter q ((List.mem_cons.mp hq).resolve_left hne)
    unfold Withstands at hwithstands
    unfold EvictedBefore
    omega

/-- The search loops of `swap_out_process_memory` find the first of the eviction order.
SOURCE: memory-management.c:410-443 -/
theorem findSwapOut_eq_head (hptr : (procMems.map ProcessMemory.ptr).Nodup) {e : ProcessMemory}
    (hes : EvictionOrder procMems (e :: es)) (hv : findSwapOut procMems = some p) : p = e := by
  by_contra hne
  have hmem : e ∈ residents procMems := hes.perm.mem_iff.mp List.mem_cons_self
  have hpe := findSwapOut_before hptr hv hmem (Ne.symm hne)
  obtain ⟨l₁, l₂, hl, hres, -⟩ := findSwapOut_split hv
  have hp : p ∈ e :: es := hes.perm.mem_iff.mpr (mem_residents.mpr ⟨by simp [hl], hres⟩)
  exact hpe.asymm ((List.pairwise_cons.mp hes.ordered).1 p ((List.mem_cons.mp hp).resolve_left hne))

end Comp30023.Interface
