import Comp30023.Interface.MemoryNodes
import Comp30023.Library.Outcome
import Comp30023.Model.LinkedScheduler
import Mathlib.Data.List.Forall2

/-!
# What a runner on the linked memory represents

The blocks of such a runner are those of the runner on lists, except that they have addresses
where those have the numbers of process memories. Everything else about the two runners is the
same, so that the runner on the linked memory can be written as the other one with its own blocks
and its own memory (`onNodes`). The operations on queues never look at a process memory and do the
same to both.
-/

set_option autoImplicit false

namespace Comp30023.Interface

open Comp30023.Library Comp30023.Model

/-- The block with the address of its process memory for the number of it. -/
def BlockAt (pointers : List ℕ) (node b : ProcessControlBlock) : Prop :=
  ∃ a, pointers[b.processMemory]? = some a ∧ node = { b with processMemory := a }

/-- Blocks and memory with addresses, and what they represent. The list of process memories has all
that were ever made. -/
structure NodesOf (pointers : List ℕ) (nodes : List ProcessControlBlock) (lm : LinkedMemory)
    (pcbs : List ProcessControlBlock) (mem : Memory) : Prop where
  blocks : List.Forall₂ (BlockAt pointers) nodes pcbs
  memory : RepresentsMemory pointers lm mem
  numbers : mem.procMems.map ProcessMemory.ptr = List.range mem.allocated

section Blocks

variable {pointers : List ℕ} {nodes pcbs pcbs' : List ProcessControlBlock}
  {b : ProcessControlBlock} {pcb : ℕ} {lm : LinkedMemory} {mem mem' : Memory}

theorem NodesOf.nodup (h : NodesOf pointers nodes lm pcbs mem) :
    (mem.procMems.map ProcessMemory.ptr).Nodup := by
  rw [h.numbers]
  exact List.nodup_range

/-- INTERNAL: the node of the process memory of a block. -/
theorem NodesOf.load (h : NodesOf pointers nodes lm pcbs mem) {ptr a : ℕ} {p : ProcessMemory}
    (ha : pointers[ptr]? = some a) (hfind : mem.find ptr = some p) :
    ∃ v, lm.procMems.load Fault.invalidPointer (some a) = .ok v ∧
      v.isInDisk = isProcessMemoryInDisk p := by
  obtain ⟨hp, rfl⟩ := mem_of_find hfind
  obtain ⟨v, hv, hrecord⟩ := h.memory.cell hp ha
  exact ⟨v, Heap.load_ok hv _, isInDisk_of_record hrecord⟩

/-- INTERNAL: one more address changes none of the others. -/
theorem BlockAt.append {node : ProcessControlBlock} (h : BlockAt pointers node b) (a : ℕ) :
    BlockAt (pointers ++ [a]) node b := by
  obtain ⟨address, hget, hnode⟩ := h
  refine ⟨address, ?_, hnode⟩
  rw [List.getElem?_append_left (List.getElem?_eq_some_iff.mp hget).1, hget]

end Blocks

end Comp30023.Interface
