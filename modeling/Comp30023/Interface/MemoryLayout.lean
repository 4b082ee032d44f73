import Comp30023.Library.Spans
import Comp30023.Model.MemoryManagement

/-!
# What the two lists say about main memory

A free memory segment and a process memory that is not in disk both stand for a run
of addresses. `Memory.spans` collects them, and `Partition M` is the layout the
memory manager is meant to keep: the free list is the coalesced list of the holes,
and every address of `1..M` belongs to exactly one hole or process memory, every
other address to none. The pointers of the process memories are pairwise different
and were all handed out by `malloc`.
-/

set_option autoImplicit false

namespace Comp30023.Interface

open Comp30023.Library Comp30023.Model

/-- The addresses of a free memory segment. -/
def segmentSpan (memSeg : FreeMemorySegment) : Span := ⟨memSeg.startAddress, memSeg.size⟩

/-- The addresses of a process memory that is in main memory. -/
def processSpan (procMem : ProcessMemory) : Span := ⟨procMem.startAddress, procMem.size⟩

/-- The process memories that are in main memory, in list order. -/
def residents (procMems : List ProcessMemory) : List ProcessMemory :=
  procMems.filter fun procMem => !isProcessMemoryInDisk procMem

/-- The runs of addresses that the free list claims. -/
def freeSpans (m : Memory) : List Span := m.memSegs.map segmentSpan

/-- The runs of addresses that process memories claim. -/
def residentSpans (m : Memory) : List Span := (residents m.procMems).map processSpan

/-- The layout of a main memory with the addresses `1..M`. -/
structure Partition (M : ℤ) (m : Memory) : Prop where
  coalesced : Coalesced (freeSpans m)
  exact : ∀ x, depth (freeSpans m) x + depth (residentSpans m) x = if 1 ≤ x ∧ x ≤ M then 1 else 0
  sizes : ∀ p ∈ m.procMems, 1 ≤ p.size
  pointers : (m.procMems.map ProcessMemory.ptr).Nodup
  allocated : ∀ p ∈ m.procMems, p.ptr < m.allocated

/-! ## Reading and writing through pointers -/

@[simp] theorem segmentSpan_top (memSeg : FreeMemorySegment) :
    (segmentSpan memSeg).top = memSeg.startAddress := rfl

@[simp] theorem segmentSpan_bottom (memSeg : FreeMemorySegment) :
    (segmentSpan memSeg).bottom = getFreeMemorySegmentEndAddress memSeg := rfl

@[simp] theorem segmentSpan_len (memSeg : FreeMemorySegment) :
    (segmentSpan memSeg).len = memSeg.size := rfl

theorem mem_residents {procMems : List ProcessMemory} {p : ProcessMemory} :
    p ∈ residents procMems ↔ p ∈ procMems ∧ isProcessMemoryInDisk p = false := by
  simp [residents]

@[simp] theorem residents_append (l₁ l₂ : List ProcessMemory) :
    residents (l₁ ++ l₂) = residents l₁ ++ residents l₂ := by
  simp [residents]

theorem residents_cons_inDisk {p : ProcessMemory} (h : isProcessMemoryInDisk p = true)
    (l : List ProcessMemory) : residents (p :: l) = residents l := by
  simp [residents, h]

theorem residents_cons_resident {p : ProcessMemory} (h : isProcessMemoryInDisk p = false)
    (l : List ProcessMemory) : residents (p :: l) = p :: residents l := by
  simp [residents, h]

@[simp] theorem isProcessMemoryInDisk_swappedOut (p : ProcessMemory) :
    isProcessMemoryInDisk p.swappedOut = true := by
  simp [isProcessMemoryInDisk, ProcessMemory.swappedOut]

/-- INTERNAL: what a pointer finds after a write through a pointer. -/
theorem find_modify {m : Memory} {ptr : ℕ} {f : ProcessMemory → ProcessMemory}
    (hf : ∀ p, (f p).ptr = p.ptr) (q : ℕ) :
    (m.modify ptr f).find q = if q = ptr then (m.find q).map f else m.find q := by
  unfold Memory.find Memory.modify
  rw [List.find?_map]
  have hpred : (fun procMem : ProcessMemory => procMem.ptr == q) ∘
      (fun procMem => if procMem.ptr = ptr then f procMem else procMem) =
      fun procMem => procMem.ptr == q := by
    funext p
    simp only [Function.comp_apply]
    split <;> simp [hf]
  rw [hpred]
  cases hfind : m.procMems.find? (fun procMem => procMem.ptr == q) with
  | none => simp
  | some p =>
    have hp : p.ptr = q := by simpa using List.find?_some hfind
    simp only [Option.map_some, hp]
    split <;> rfl

/-- INTERNAL: a pointer that finds something finds a process memory of the list. -/
theorem mem_of_find {m : Memory} {ptr : ℕ} {p : ProcessMemory} (h : m.find ptr = some p) :
    p ∈ m.procMems ∧ p.ptr = ptr :=
  ⟨List.mem_of_find?_eq_some h, by simpa using List.find?_some h⟩

/-- INTERNAL: with pairwise different pointers, a process memory of the list is found
by its pointer. -/
theorem find_of_mem {m : Memory} (hptr : (m.procMems.map ProcessMemory.ptr).Nodup)
    {p : ProcessMemory} (h : p ∈ m.procMems) : m.find p.ptr = some p := by
  obtain ⟨l₁, l₂, hl⟩ := List.append_of_mem h
  unfold Memory.find
  rw [hl, List.find?_append]
  have hnone : l₁.find? (fun q => q.ptr == p.ptr) = none := by
    rw [List.find?_eq_none]
    intro q hq hqp
    rw [hl, List.map_append, List.map_cons, List.nodup_append] at hptr
    exact hptr.2.2 q.ptr (List.mem_map_of_mem hq) p.ptr (by simp) (by simpa using hqp)
  simp [hnone]

/-- INTERNAL: a write through a pointer changes the one process memory it points to. -/
theorem modify_split {m : Memory} {l₁ l₂ : List ProcessMemory} {p : ProcessMemory}
    (hl : m.procMems = l₁ ++ p :: l₂) (hptr : (m.procMems.map ProcessMemory.ptr).Nodup)
    (f : ProcessMemory → ProcessMemory) :
    (m.modify p.ptr f).procMems = l₁ ++ f p :: l₂ := by
  rw [hl, List.map_append, List.map_cons, List.nodup_append, List.nodup_cons] at hptr
  obtain ⟨-, ⟨hp, -⟩, hdisj⟩ := hptr
  have hkeep : ∀ l : List ProcessMemory, (∀ q ∈ l, q.ptr ≠ p.ptr) →
      l.map (fun q => if q.ptr = p.ptr then f q else q) = l := by
    intro l hne
    have hid : l.map (fun q => if q.ptr = p.ptr then f q else q) = l.map id :=
      List.map_congr_left fun q hq => by simp [hne q hq]
    rw [hid, List.map_id]
  unfold Memory.modify
  simp only [hl, List.map_append, List.map_cons, if_true]
  rw [hkeep l₁ fun q hq => hdisj q.ptr (List.mem_map_of_mem hq) p.ptr (by simp),
    hkeep l₂ fun q hq heq => hp (heq ▸ List.mem_map_of_mem hq)]

end Comp30023.Interface
