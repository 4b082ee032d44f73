import Comp30023.Interface.MemoryLayout
import Comp30023.Model.LinkedMemory

/-!
# What the linked memory represents

`RepresentsMemory` reads the two linked lists as the lists of `Memory`: the free segments and the
process memories stand in their nodes in list order, a process memory in the node at the address
that `malloc` gave it, and no other node is allocated. The pointer of a process memory is the
number of the call that made it, and `pointers` has the address that each call gave.
-/

set_option autoImplicit false

namespace Comp30023.Interface

open Comp30023.Library Comp30023.Model

/-- A process memory without its link and its address. -/
structure ProcessMemoryRecord where
  startAddress : ℤ
  size : ℤ
  swapInTime : ℤ
  processId : ℤ
deriving Repr, DecidableEq

/-- What a node holds. -/
def nodeRecord (node : ProcessMemoryNode) : ProcessMemoryRecord :=
  ⟨node.startAddress, node.size, node.swapInTime, node.processId⟩

/-- What a process memory holds. -/
def memoryRecord (procMem : ProcessMemory) : ProcessMemoryRecord :=
  ⟨procMem.startAddress, procMem.size, procMem.swapInTime, procMem.processId⟩

/-- These nodes, and no other, hold these free segments. -/
def FreeSpine (heap : Heap FreeMemorySegmentNode) (head : Option ℕ) (nodes : List ℕ)
    (memSegs : List FreeMemorySegment) : Prop :=
  Spine FreeMemorySegmentNode.next FreeMemorySegmentNode.segment heap head nodes memSegs

/-- These nodes, and no other, hold these process memories. -/
def ProcessSpine (heap : Heap ProcessMemoryNode) (head : Option ℕ) (nodes : List ℕ)
    (procMems : List ProcessMemory) : Prop :=
  Spine ProcessMemoryNode.next nodeRecord heap head nodes (procMems.map memoryRecord)

/-- The lists that the linked memory represents, with the address of each process memory. -/
structure RepresentsMemory (pointers : List ℕ) (lm : LinkedMemory) (m : Memory) : Prop where
  memSegs : ∃ nodes, FreeSpine lm.memSegs lm.memSegsHead nodes m.memSegs
  procMems : ∃ nodes, ProcessSpine lm.procMems lm.procMemsHead nodes m.procMems ∧
    m.procMems.map (fun procMem => pointers[procMem.ptr]?) = nodes.map some
  allocated : pointers.length = m.allocated

/-! ## Process memories and their nodes -/

section Nodes

variable {v : ProcessMemoryNode} {p : ProcessMemory}

theorem isInDisk_of_record (h : nodeRecord v = memoryRecord p) :
    v.isInDisk = isProcessMemoryInDisk p := by
  simp only [nodeRecord, memoryRecord, ProcessMemoryRecord.mk.injEq] at h
  rw [ProcessMemoryNode.isInDisk, isProcessMemoryInDisk, h.1]

/-- INTERNAL: where the lists are cut in two, so are the nodes. -/
theorem nodes_split {pointers nodes : List ℕ} {l₁ l₂ : List ProcessMemory}
    (haddresses : (l₁ ++ p :: l₂).map (fun procMem => pointers[procMem.ptr]?) = nodes.map some) :
    ∃ ps a qs, nodes = ps ++ a :: qs ∧ ps.length = l₁.length ∧ pointers[p.ptr]? = some a ∧
      l₁.map (fun procMem => pointers[procMem.ptr]?) = ps.map some ∧
      l₂.map (fun procMem => pointers[procMem.ptr]?) = qs.map some := by
  rw [List.map_append, List.map_cons] at haddresses
  obtain ⟨ps, rest, rfl, hps, hrest⟩ := List.map_eq_append_iff.mp haddresses.symm
  obtain ⟨a, qs, rfl, ha, hqs⟩ := List.map_eq_cons_iff.mp hrest
  refine ⟨ps, a, qs, rfl, ?_, ha.symm, hps.symm, hqs.symm⟩
  simpa using congrArg List.length hps

/-- INTERNAL: the node of a process memory of the list. -/
theorem ProcessSpine.locate {heap : Heap ProcessMemoryNode} {head : Option ℕ}
    {pointers nodes : List ℕ} {l₁ l₂ : List ProcessMemory}
    (hs : ProcessSpine heap head nodes (l₁ ++ p :: l₂))
    (haddresses : (l₁ ++ p :: l₂).map (fun procMem => pointers[procMem.ptr]?) = nodes.map some) :
    ∃ ps a qs v, nodes = ps ++ a :: qs ∧ ps.length = (l₁.map memoryRecord).length ∧
      pointers[p.ptr]? = some a ∧ heap.cell a = some v ∧ nodeRecord v = memoryRecord p ∧
      v.next = qs.head? ∧
      Spine ProcessMemoryNode.next nodeRecord heap head (ps ++ a :: qs)
        (l₁.map memoryRecord ++ memoryRecord p :: l₂.map memoryRecord) ∧
      l₁.map (fun procMem => pointers[procMem.ptr]?) = ps.map some ∧
      l₂.map (fun procMem => pointers[procMem.ptr]?) = qs.map some := by
  obtain ⟨ps, a, qs, rfl, hlength, ha, hps, hqs⟩ := nodes_split haddresses
  have hs' : Spine ProcessMemoryNode.next nodeRecord heap head (ps ++ a :: qs)
      (l₁.map memoryRecord ++ memoryRecord p :: l₂.map memoryRecord) := by
    simpa [ProcessSpine] using hs
  have hlength' : ps.length = (l₁.map memoryRecord).length := by rw [hlength, List.length_map]
  obtain ⟨v, hv, hrecord, hnext⟩ := hs'.cell hlength'
  exact ⟨ps, a, qs, v, rfl, hlength', ha, hv, hrecord, hnext, hs', hps, hqs⟩

/-- INTERNAL: the walk along the process memories stops at the first that is asked for, or behind
the last one. -/
theorem ProcessSpine.search {heap : Heap ProcessMemoryNode} {head : Option ℕ}
    {pointers nodes : List ℕ} {procMems : List ProcessMemory}
    (hs : ProcessSpine heap head nodes procMems)
    (haddresses : procMems.map (fun procMem => pointers[procMem.ptr]?) = nodes.map some)
    (stop : ProcessMemoryNode → Bool) (wanted : ProcessMemoryRecord → Bool)
    (hstop : ∀ v, stop v = wanted (nodeRecord v)) :
    (∀ p ∈ procMems, wanted (memoryRecord p) = false) ∧
        LinkedMemory.searchProcMems stop heap head = .ok (nodes.getLast?, none) ∨
      ∃ l₁ p l₂ ps a qs, procMems = l₁ ++ p :: l₂ ∧ nodes = ps ++ a :: qs ∧
        ps.length = l₁.length ∧ pointers[p.ptr]? = some a ∧
        (∀ q ∈ l₁, wanted (memoryRecord q) = false) ∧ wanted (memoryRecord p) = true ∧
        LinkedMemory.searchProcMems stop heap head = .ok (ps.getLast?, some a) := by
  rcases search_head Fault.invalidPointer Fault.diverges stop wanted hstop hs.chain with
    ⟨hnone, hend⟩ | ⟨ps, a, qs, us, z, vs, rfl, hlist, hlength, hbefore, hz, hsearch⟩
  · exact Or.inl ⟨fun p hp => hnone _ (List.mem_map_of_mem hp), hend⟩
  · obtain ⟨l₁, rest, rfl, rfl, hrest⟩ := List.map_eq_append_iff.mp hlist
    obtain ⟨p, l₂, rfl, rfl, rfl⟩ := List.map_eq_cons_iff.mp hrest
    have hlength' : ps.length = l₁.length := by rw [hlength, List.length_map]
    refine Or.inr ⟨l₁, p, l₂, ps, a, qs, rfl, rfl, hlength', ?_, ?_, hz, hsearch⟩
    · rw [List.map_append, List.map_append, List.map_cons, List.map_cons] at haddresses
      obtain ⟨-, htail⟩ := List.append_inj haddresses (by simp [hlength'])
      exact (List.cons.inj htail).1
    · exact fun q hq => hbefore _ (List.mem_map_of_mem hq)

/-- A process memory of the list gets other data in its node. -/
theorem ProcessSpine.store {heap : Heap ProcessMemoryNode} {head : Option ℕ}
    {pointers nodes : List ℕ} {l₁ l₂ : List ProcessMemory} {r : ProcessMemory}
    {u : ProcessMemoryNode} {a : ℕ} (hs : ProcessSpine heap head nodes (l₁ ++ p :: l₂))
    (haddresses : (l₁ ++ p :: l₂).map (fun procMem => pointers[procMem.ptr]?) = nodes.map some)
    (ha : pointers[p.ptr]? = some a) (hv : heap.cell a = some v)
    (hrecord : nodeRecord u = memoryRecord r) (hnext : u.next = v.next) (hptr : r.ptr = p.ptr) :
    ProcessSpine (heap.set a u) head nodes (l₁ ++ r :: l₂) ∧
      (l₁ ++ r :: l₂).map (fun procMem => pointers[procMem.ptr]?) = nodes.map some := by
  obtain ⟨ps, b, qs, w, rfl, hlength, hb, hw, -, hlink, hspine, -, -⟩ := hs.locate haddresses
  obtain rfl : a = b := by
    rw [ha, Option.some.injEq] at hb
    exact hb
  rw [hv, Option.some.injEq] at hw
  subst hw
  refine ⟨?_, ?_⟩
  · have hstored := hspine.store hlength (u := u) (by rw [hnext, hlink])
    rw [hrecord] at hstored
    simpa [ProcessSpine] using hstored
  · rw [← haddresses]
    simp [hptr]

/-- INTERNAL: the node at the address of a process memory of the list. -/
theorem RepresentsMemory.cell {pointers : List ℕ} {lm : LinkedMemory} {m : Memory} {a : ℕ}
    (h : RepresentsMemory pointers lm m) (hp : p ∈ m.procMems) (ha : pointers[p.ptr]? = some a) :
    ∃ v, lm.procMems.cell a = some v ∧ nodeRecord v = memoryRecord p := by
  obtain ⟨nodes, hs, haddresses⟩ := h.procMems
  obtain ⟨l₁, l₂, hl⟩ := List.append_of_mem hp
  rw [hl] at hs haddresses
  obtain ⟨-, b, -, v, -, -, hb, hv, hrecord, -⟩ := hs.locate haddresses
  rw [ha, Option.some.injEq] at hb
  exact ⟨v, by rw [hb, hv], hrecord⟩

end Nodes

end Comp30023.Interface
