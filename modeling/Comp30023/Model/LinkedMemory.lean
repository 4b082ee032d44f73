import Comp30023.Library.Spines
import Comp30023.Model.LinkedFreeList

/-!
# The memory manager with its links

`memory-management.c` once more, now with both lists as nodes in heaps and process memories known
by their addresses. Every function walks along `next` pointers with the node before the cursor in
tow, rewrites links and gives nodes back where the source does. `malloc` is an `Allocator` that
always has memory to give; the structures that hold the two head pointers are not on a heap.

A loop is given as many passes as there can be live nodes and one more; a loop that makes more has
met a cycle and `diverges`.
-/

set_option autoImplicit false

namespace Comp30023.Model

open Comp30023.Library

/-- A process memory with its link.
SOURCE: memory-management.h:31-38 -/
structure ProcessMemoryNode where
  next : Option ℕ
  startAddress : ℤ
  size : ℤ
  swapInTime : ℤ
  processId : ℤ
deriving Repr, DecidableEq

/-- SOURCE: memory-management.c:262-265 -/
def ProcessMemoryNode.isInDisk (procMem : ProcessMemoryNode) : Bool :=
  procMem.startAddress == inDisk

/-- The nodes of the two lists, and where the lists begin.
SOURCE: memory-management.h:25-28, 41-44 -/
structure LinkedMemory where
  memSegs : Heap FreeMemorySegmentNode
  memSegsHead : Option ℕ
  procMems : Heap ProcessMemoryNode
  procMemsHead : Option ℕ

/-- What `malloc` returns for a new node of either kind. -/
structure Mallocs where
  memSeg : Allocator FreeMemorySegmentNode
  procMem : Allocator ProcessMemoryNode

namespace LinkedMemory

/-- The walk along the free list to the first segment that `stop` asks for, with the one before. -/
def searchMemSegs (stop : FreeMemorySegmentNode → Bool) (heap : Heap FreeMemorySegmentNode)
    (head : Option ℕ) : Except Fault (Option ℕ × Option ℕ) :=
  heap.search Fault.invalidPointer Fault.diverges FreeMemorySegmentNode.next stop (heap.fresh + 1)
    none head

/-- The walk along the process memories to the first that `stop` asks for, with the one before. -/
def searchProcMems (stop : ProcessMemoryNode → Bool) (heap : Heap ProcessMemoryNode)
    (head : Option ℕ) : Except Fault (Option ℕ × Option ℕ) :=
  heap.search Fault.invalidPointer Fault.diverges ProcessMemoryNode.next stop (heap.fresh + 1)
    none head

/-! ## Free memory segments -/

/-- The fresh lists.
SOURCE: memory-management.c:17-48, 181-197 -/
def new (mallocs : Mallocs) (size : ℤ) : LinkedMemory :=
  let (memSeg, heap) := mallocs.memSeg.alloc Heap.empty ⟨none, size, size⟩
  { memSegs := heap, memSegsHead := some memSeg, procMems := Heap.empty, procMemsHead := none }

/-- SOURCE: memory-management.c:122-161 -/
def consolidateFreeMemorySegmentsList (m : LinkedMemory) : Except Fault LinkedMemory :=
  match loop consolidatePass (m.memSegs.fresh + 1) (m.memSegs, m.memSegsHead) with
  | .error e => .error e
  | .ok (.again _) => .error .diverges
  | .ok (.done (heap, _)) => .ok { m with memSegs := heap }

/-- The node is hung into the list: as the head of the empty list, before the first segment that
does not start higher, else behind the last one.
SOURCE: memory-management.c:70-111 -/
def linkFreeMemorySegment (memSeg : ℕ) (startAddress : ℤ) (m : LinkedMemory) :
    Except Fault LinkedMemory :=
  match m.memSegsHead with
  | none => .ok { m with memSegsHead := some memSeg }
  | some _ => do
    let (prevMemSeg, currMemSeg) ← searchMemSegs
      (fun currMemSeg => decide (startAddress ≥ currMemSeg.startAddress)) m.memSegs m.memSegsHead
    if currMemSeg = m.memSegsHead then do
      let heap ← m.memSegs.modify Fault.invalidPointer (some memSeg) fun memSeg =>
        { memSeg with next := currMemSeg }
      .ok { m with memSegs := heap, memSegsHead := some memSeg }
    else do
      -- both inside the list and at its end, where `curr_mem_seg` is null
      let heap ← m.memSegs.modify Fault.invalidPointer prevMemSeg fun prevMemSeg =>
        { prevMemSeg with next := some memSeg }
      let heap ← heap.modify Fault.invalidPointer (some memSeg) fun memSeg =>
        { memSeg with next := currMemSeg }
      .ok { m with memSegs := heap }

/-- SOURCE: memory-management.c:50-115 -/
def addNewFreeMemorySegmentToFreeMemorySegmentsList (mallocs : Mallocs) (startAddress size : ℤ)
    (m : LinkedMemory) : Except Fault LinkedMemory := do
  let (memSeg, heap) := mallocs.memSeg.alloc m.memSegs ⟨none, startAddress, size⟩
  let m ← linkFreeMemorySegment memSeg startAddress { m with memSegs := heap }
  m.consolidateFreeMemorySegmentsList

/-- SOURCE: memory-management.c:163-179 -/
def getFreeMemorySegmentsListCount (m : LinkedMemory) : Except Fault ℤ :=
  m.memSegs.foldLinks Fault.invalidPointer Fault.diverges FreeMemorySegmentNode.next
    (fun count _ => count + 1) (m.memSegs.fresh + 1) 0 m.memSegsHead

/-! ## Process memories -/

/-- SOURCE: memory-management.c:199-219 -/
def newProcessMemory (mallocs : Mallocs) (size processId : ℤ) (m : LinkedMemory) :
    ℕ × LinkedMemory :=
  let (procMem, heap) := mallocs.procMem.alloc m.procMems
    { next := none, startAddress := inDisk, size := size, swapInTime := 0, processId := processId }
  (procMem, { m with procMems := heap })

/-- The walk goes to the last process memory, which is the node before the null pointer.
SOURCE: memory-management.c:221-247 -/
def addProcessMemoryToProcessMemoriesList (newProcMem : ℕ) (m : LinkedMemory) :
    Except Fault LinkedMemory :=
  match m.procMemsHead with
  | none => .ok { m with procMemsHead := some newProcMem }
  | some _ => do
    let (currProcMem, _) ← searchProcMems (fun _ => false) m.procMems m.procMemsHead
    let heap ← m.procMems.modify Fault.invalidPointer currProcMem fun currProcMem =>
      { currProcMem with next := some newProcMem }
    .ok { m with procMems := heap }

/-- Also returns the address of the process memory.
SOURCE: memory-management.c:249-255 -/
def addNewProcessMemoryToProcessMemoriesList (mallocs : Mallocs) (size processId : ℤ)
    (m : LinkedMemory) : Except Fault (ℕ × LinkedMemory) := do
  let (procMem, m) := m.newProcessMemory mallocs size processId
  let m ← m.addProcessMemoryToProcessMemoriesList procMem
  .ok (procMem, m)

/-- The links lead past the node at `curr_proc_mem`.
SOURCE: memory-management.c:295-304 -/
def unlinkProcessMemory (prevProcMem currProcMem next : Option ℕ) (m : LinkedMemory) :
    Except Fault LinkedMemory :=
  if currProcMem = m.procMemsHead then .ok { m with procMemsHead := next }
  else do
    let heap ← m.procMems.modify Fault.invalidPointer prevProcMem fun prevProcMem =>
      { prevProcMem with next := next }
    .ok { m with procMems := heap }

/-- SOURCE: memory-management.c:267-329 -/
def removeProcessMemoryByProcessId (mallocs : Mallocs) (processId : ℤ) (m : LinkedMemory) :
    Except Fault (Bool × LinkedMemory) := do
  let (prevProcMem, currProcMem) ← searchProcMems
    (fun currProcMem => currProcMem.processId == processId) m.procMems m.procMemsHead
  match currProcMem with
  | none => .ok (false, m)
  | some _ => do
    let procMem ← m.procMems.load Fault.invalidPointer currProcMem
    let m ← m.unlinkProcessMemory prevProcMem currProcMem procMem.next
    let m ←
      if procMem.isInDisk then .ok m
      else
        m.addNewFreeMemorySegmentToFreeMemorySegmentsList mallocs procMem.startAddress procMem.size
    let heap ← m.procMems.free Fault.invalidPointer currProcMem
    .ok (true, { m with procMems := heap })

/-- The segment of a process memory goes back to the free list and the process memory to disk.
SOURCE: memory-management.c:446-453, 465-472 -/
def release (mallocs : Mallocs) (procMem : ℕ) (m : LinkedMemory) : Except Fault LinkedMemory := do
  let p ← m.procMems.load Fault.invalidPointer (some procMem)
  let m ← m.addNewFreeMemorySegmentToFreeMemorySegmentsList mallocs p.startAddress p.size
  let heap ← m.procMems.modify Fault.invalidPointer (some procMem) fun p =>
    { p with startAddress := inDisk, swapInTime := 0 }
  .ok { m with procMems := heap }

/-- The second loop of `swap_out_process_memory`, from `proc_mem` on.
SOURCE: memory-management.c:425-443 -/
def selectSwapOut (heap : Heap ProcessMemoryNode) : ℕ → ℕ → Option ℕ → Except Fault ℕ
  | 0, _, _ => .error .diverges
  | _ + 1, swapOutProcMem, none => .ok swapOutProcMem
  | fuel + 1, swapOutProcMem, some procMem => do
    let p ← heap.load Fault.invalidPointer (some procMem)
    if p.isInDisk then selectSwapOut heap fuel swapOutProcMem p.next
    else do
      let best ← heap.load Fault.invalidPointer (some swapOutProcMem)
      if p.size > best.size then selectSwapOut heap fuel procMem p.next
      else if p.size = best.size ∧ p.swapInTime ≤ best.swapInTime then
        selectSwapOut heap fuel procMem p.next
      else selectSwapOut heap fuel swapOutProcMem p.next

/-- When the first loop finds no process memory in main memory, `swap_out_proc_mem` is used
without a value.
SOURCE: memory-management.c:405-456 -/
def swapOutProcessMemory (mallocs : Mallocs) (m : LinkedMemory) : Except Fault LinkedMemory := do
  let (_, procMem) ← searchProcMems (fun procMem => !procMem.isInDisk) m.procMems m.procMemsHead
  match procMem with
  | none => .error .noVictim
  | some first => do
    let swapOutProcMem ← selectSwapOut m.procMems (m.procMems.fresh + 1) first procMem
    m.release mallocs swapOutProcMem

/-- SOURCE: memory-management.c:458-476 -/
def swapOutProcessMemoryByProcessMemory (mallocs : Mallocs) (procMem : ℕ) (m : LinkedMemory) :
    Except Fault LinkedMemory := do
  let p ← m.procMems.load Fault.invalidPointer (some procMem)
  if p.isInDisk then .ok m else m.release mallocs procMem

/-- The process memory takes the segment at `curr_mem_seg`, which shrinks, and leaves the list
when nothing of it is left.
SOURCE: memory-management.c:367-393 -/
def occupyFreeMemorySegment (procMem : ℕ) (time : ℤ) (prevMemSeg currMemSeg : Option ℕ)
    (m : LinkedMemory) : Except Fault LinkedMemory := do
  let segment ← m.memSegs.load Fault.invalidPointer currMemSeg
  let procMems ← m.procMems.modify Fault.invalidPointer (some procMem) fun p =>
    { p with startAddress := segment.startAddress, swapInTime := time }
  let p ← procMems.load Fault.invalidPointer (some procMem)
  let memSegs ← m.memSegs.modify Fault.invalidPointer currMemSeg fun segment =>
    { segment with startAddress := p.startAddress - p.size, size := segment.size - p.size }
  let segment ← memSegs.load Fault.invalidPointer currMemSeg
  if segment.size = 0 then do
    let m ←
      if currMemSeg = m.memSegsHead then
        .ok { m with memSegs := memSegs, memSegsHead := segment.next, procMems := procMems }
      else do
        let memSegs ← memSegs.modify Fault.invalidPointer prevMemSeg fun prevMemSeg =>
          { prevMemSeg with next := segment.next }
        .ok { m with memSegs := memSegs, procMems := procMems }
    let memSegs ← m.memSegs.free Fault.invalidPointer currMemSeg
    .ok { m with memSegs := memSegs }
  else .ok { m with memSegs := memSegs, procMems := procMems }

/-- The outer loop of `swap_in_process_memory`.
SOURCE: memory-management.c:357-400 -/
def swapInLoop (mallocs : Mallocs) (procMem : ℕ) (time : ℤ) :
    ℕ → LinkedMemory → Except Fault LinkedMemory
  | 0, _ => .error .diverges
  | fuel + 1, m => do
    let p ← m.procMems.load Fault.invalidPointer (some procMem)
    if p.isInDisk then do
      let (prevMemSeg, currMemSeg) ← searchMemSegs
        (fun currMemSeg => decide (p.size ≤ currMemSeg.size)) m.memSegs m.memSegsHead
      match currMemSeg with
      | some _ => m.occupyFreeMemorySegment procMem time prevMemSeg currMemSeg
      | none => do
        let m ← m.swapOutProcessMemory mallocs
        swapInLoop mallocs procMem time fuel m
    else .ok m

/-- Every pass that does not end the loop puts a process memory in disk.
SOURCE: memory-management.c:351-403 -/
def swapInProcessMemory (mallocs : Mallocs) (procMem : ℕ) (time : ℤ) (m : LinkedMemory) :
    Except Fault LinkedMemory :=
  swapInLoop mallocs procMem time (m.procMems.fresh + 1) m

/-! ## Statistics -/

/-- SOURCE: memory-management.c:558-578 -/
def getProcessMemoriesListNotInDiskCount (m : LinkedMemory) : Except Fault ℤ :=
  m.procMems.foldLinks Fault.invalidPointer Fault.diverges ProcessMemoryNode.next
    (fun count procMem => if procMem.isInDisk then count else count + 1) (m.procMems.fresh + 1) 0
    m.procMemsHead

/-- SOURCE: memory-management.c:580-600 -/
def getProcessMemoriesListNotInDiskSize (m : LinkedMemory) : Except Fault ℤ :=
  m.procMems.foldLinks Fault.invalidPointer Fault.diverges ProcessMemoryNode.next
    (fun size procMem => if procMem.isInDisk then size else size + procMem.size)
    (m.procMems.fresh + 1) 0 m.procMemsHead

/-! ## The end -/

end LinkedMemory

end Comp30023.Model
