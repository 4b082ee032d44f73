import Comp30023.Library.Heap
import Comp30023.Library.Loop
import Comp30023.Model.MemoryManagement

/-!
# The free list with its links

`consolidate_free_memory_segments_list` once more, now with the free memory segments as nodes
in a heap: the loop follows and rewrites their `next` links and gives merged nodes back.
-/

set_option autoImplicit false

namespace Comp30023.Model

open Comp30023.Library

/-- A free memory segment with its link.
SOURCE: memory-management.h:17-22 -/
structure FreeMemorySegmentNode where
  next : Option ℕ
  startAddress : ℤ
  size : ℤ
deriving Repr, DecidableEq

/-- The segment without its link. -/
def FreeMemorySegmentNode.segment (node : FreeMemorySegmentNode) : FreeMemorySegment :=
  ⟨node.startAddress, node.size⟩

/-- One pass through the loop, with the heap and `curr_mem_seg`. After a merge the cursor
stays where it is.
SOURCE: memory-management.c:129-158 -/
def consolidatePass (s : Heap FreeMemorySegmentNode × Option ℕ) :
    Except Fault (Pass (Heap FreeMemorySegmentNode × Option ℕ)) :=
  let (heap, currMemSeg) := s
  match currMemSeg with
  | none => .ok (.done s)
  | some _ => do
    let curr ← heap.load Fault.invalidPointer currMemSeg
    match curr.next with
    | none => .ok (.done s)
    | some nextMemSeg => do
      let next ← heap.load Fault.invalidPointer (some nextMemSeg)
      if getFreeMemorySegmentEndAddress curr.segment = next.startAddress then do
        let heap ← heap.modify Fault.invalidPointer currMemSeg fun curr =>
          { curr with next := next.next, size := curr.size + next.size }
        let heap ← heap.free Fault.invalidPointer (some nextMemSeg)
        .ok (.again (heap, currMemSeg))
      else
        .ok (.again (heap, some nextMemSeg))

end Comp30023.Model
