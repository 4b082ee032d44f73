import Mathlib.Data.List.Basic
import Mathlib.Data.Int.Order.Basic
import Mathlib.Algebra.Ring.Int.Defs

/-!
# The memory manager

`memory-management.c`, function by function. The two linked lists of the source
are Lean lists in link order; a pointer to a process memory is the number of the
`malloc` that made it, kept in the block itself as `ptr`, so that "the process
memory on the list that this pointer points to" is a lookup. C `int`s are exact
integers.

A call that the C code cannot make sense of is a `Fault`: `swapOutProcessMemory`
without a process memory to swap out reads an uninitialised pointer in the source,
and is `noVictim` here. `diverges` stands for a loop that never ends and is only
produced when the pass budget of a loop is used up.
-/

set_option autoImplicit false

namespace Comp30023.Model

/-- What the C program does that it must not do: swap out a process memory when
none is in main memory, follow a pointer that points nowhere, index outside an
array, or never come back from a loop. -/
inductive Fault where
  | noVictim
  | invalidPointer
  | indexOutOfRange
  | diverges
deriving Repr, DecidableEq

/-- Used in `startAddress` when the process memory is in disk.
SOURCE: memory-management.h:11 -/
def inDisk : ℤ := -1

/-- A free memory segment; it occupies the addresses `(startAddress - size, startAddress]`.
SOURCE: memory-management.h:17-22 -/
structure FreeMemorySegment where
  startAddress : ℤ
  size : ℤ
deriving Repr, DecidableEq

/-- A process memory, with the pointer it is known by.
SOURCE: memory-management.h:31-38 -/
structure ProcessMemory where
  ptr : ℕ
  startAddress : ℤ
  size : ℤ
  swapInTime : ℤ
  processId : ℤ
deriving Repr, DecidableEq

/-- The free memory segments list and the process memories list, with the number of
process memories allocated so far (the pointer of the next one). -/
structure Memory where
  memSegs : List FreeMemorySegment
  procMems : List ProcessMemory
  allocated : ℕ
deriving Repr, DecidableEq

/-! ## Free memory segments -/

/-- SOURCE: memory-management.c:17-48 -/
def newFreeMemorySegmentsList (size : ℤ) : List FreeMemorySegment := [⟨size, size⟩]

/-- SOURCE: memory-management.c:117-120 -/
def getFreeMemorySegmentEndAddress (memSeg : FreeMemorySegment) : ℤ :=
  memSeg.startAddress - memSeg.size

/-- The loop of `consolidate_free_memory_segments_list` with `curr_mem_seg` and what
follows it. A merge keeps the cursor where it is.
SOURCE: memory-management.c:129-158 -/
def consolidateFrom (currMemSeg : FreeMemorySegment) :
    List FreeMemorySegment → List FreeMemorySegment
  | [] => [currMemSeg]
  | nextMemSeg :: rest =>
    if getFreeMemorySegmentEndAddress currMemSeg = nextMemSeg.startAddress then
      consolidateFrom { currMemSeg with size := currMemSeg.size + nextMemSeg.size } rest
    else
      currMemSeg :: consolidateFrom nextMemSeg rest

/-- SOURCE: memory-management.c:122-161 -/
def consolidateFreeMemorySegmentsList : List FreeMemorySegment → List FreeMemorySegment
  | [] => []
  | head :: rest => consolidateFrom head rest

/-- The search for the sorted position: before the first segment that does not start
higher, else at the end.
SOURCE: memory-management.c:70-111 -/
def insertFreeMemorySegment (memSeg : FreeMemorySegment) :
    List FreeMemorySegment → List FreeMemorySegment
  | [] => [memSeg]
  | currMemSeg :: rest =>
    if memSeg.startAddress ≥ currMemSeg.startAddress then
      memSeg :: currMemSeg :: rest
    else
      currMemSeg :: insertFreeMemorySegment memSeg rest

/-- SOURCE: memory-management.c:50-115 -/
def addNewFreeMemorySegmentToFreeMemorySegmentsList (startAddress size : ℤ)
    (memSegsList : List FreeMemorySegment) : List FreeMemorySegment :=
  consolidateFreeMemorySegmentsList (insertFreeMemorySegment ⟨startAddress, size⟩ memSegsList)

/-- SOURCE: memory-management.c:163-179 -/
def getFreeMemorySegmentsListCount (memSegsList : List FreeMemorySegment) : ℤ :=
  memSegsList.length

/-! ## Process memories -/

/-- SOURCE: memory-management.c:257-260 -/
def getProcessMemoryEndAddress (procMem : ProcessMemory) : ℤ :=
  procMem.startAddress - procMem.size

/-- SOURCE: memory-management.c:262-265 -/
def isProcessMemoryInDisk (procMem : ProcessMemory) : Bool :=
  procMem.startAddress == inDisk

/-- The fresh lists: one segment with everything, no process memory.
SOURCE: memory-management.c:17-48, 181-197 -/
def newMemory (size : ℤ) : Memory :=
  { memSegs := newFreeMemorySegmentsList size, procMems := [], allocated := 0 }

/-- A new process memory, in disk, that is not on the list yet.
SOURCE: memory-management.c:199-219 -/
def newProcessMemory (size processId : ℤ) (m : Memory) : ProcessMemory × Memory :=
  ({ ptr := m.allocated, startAddress := inDisk, size := size, swapInTime := 0,
     processId := processId },
   { m with allocated := m.allocated + 1 })

/-- SOURCE: memory-management.c:221-247 -/
def addProcessMemoryToProcessMemoriesList (newProcMem : ProcessMemory) (m : Memory) : Memory :=
  { m with procMems := m.procMems ++ [newProcMem] }

/-- SOURCE: memory-management.c:249-255 -/
def addNewProcessMemoryToProcessMemoriesList (size processId : ℤ) (m : Memory) : Memory :=
  let (procMem, m) := newProcessMemory size processId m
  addProcessMemoryToProcessMemoriesList procMem m

/-- The process memory on the list that `ptr` points to. -/
def Memory.find (m : Memory) (ptr : ℕ) : Option ProcessMemory :=
  m.procMems.find? fun procMem => procMem.ptr == ptr

/-- Writing through the pointer `ptr`. -/
def Memory.modify (m : Memory) (ptr : ℕ) (f : ProcessMemory → ProcessMemory) : Memory :=
  { m with procMems := m.procMems.map fun procMem =>
      if procMem.ptr = ptr then f procMem else procMem }

/-- The process memory as `swap_out` leaves it.
SOURCE: memory-management.c:452-453, 471-472 -/
def ProcessMemory.swappedOut (procMem : ProcessMemory) : ProcessMemory :=
  { procMem with startAddress := inDisk, swapInTime := 0 }

/-- The process memory as `swap_in` leaves it.
SOURCE: memory-management.c:368-369 -/
def ProcessMemory.swappedIn (startAddress time : ℤ) (procMem : ProcessMemory) : ProcessMemory :=
  { procMem with startAddress := startAddress, swapInTime := time }

/-- The loop that looks for a process id: the list without the first process memory
with that id, and that process memory.
SOURCE: memory-management.c:283-325 -/
def unlinkProcessId (processId : ℤ) :
    List ProcessMemory → Option (ProcessMemory × List ProcessMemory)
  | [] => none
  | currProcMem :: rest =>
    if currProcMem.processId = processId then
      some (currProcMem, rest)
    else
      (unlinkProcessId processId rest).map fun (found, rest') => (found, currProcMem :: rest')

/-- Removes the first process memory with the id from the list and frees its segment
when it is in main memory; the result says whether there was one.
SOURCE: memory-management.c:267-329 -/
def removeProcessMemoryByProcessId (processId : ℤ) (m : Memory) : Bool × Memory :=
  match unlinkProcessId processId m.procMems with
  | none => (false, m)
  | some (procMem, rest) =>
    if isProcessMemoryInDisk procMem then
      (true, { m with procMems := rest })
    else
      (true, { m with
        procMems := rest
        memSegs := addNewFreeMemorySegmentToFreeMemorySegmentsList
          procMem.startAddress procMem.size m.memSegs })

/-- The second loop of `swap_out_process_memory`: `swapOutProcMem` is the best process
memory so far; a larger one replaces it, and so does one of equal size that was
swapped in no later.
SOURCE: memory-management.c:425-443 -/
def selectSwapOut (swapOutProcMem : ProcessMemory) : List ProcessMemory → ProcessMemory
  | [] => swapOutProcMem
  | procMem :: rest =>
    if isProcessMemoryInDisk procMem then
      selectSwapOut swapOutProcMem rest
    else if procMem.size > swapOutProcMem.size then
      selectSwapOut procMem rest
    else if procMem.size = swapOutProcMem.size ∧
        procMem.swapInTime ≤ swapOutProcMem.swapInTime then
      selectSwapOut procMem rest
    else
      selectSwapOut swapOutProcMem rest

/-- Both search loops of `swap_out_process_memory`: the first finds a process memory
that is not in disk, the second compares from there on. `none` when every process
memory is in disk, where the source leaves `swap_out_proc_mem` uninitialised.
SOURCE: memory-management.c:410-443 -/
def findSwapOut : List ProcessMemory → Option ProcessMemory
  | [] => none
  | procMem :: rest =>
    if isProcessMemoryInDisk procMem then findSwapOut rest
    else some (selectSwapOut procMem (procMem :: rest))

/-- The segment of a process memory goes back to the free list and the process memory
to disk. -/
def Memory.release (m : Memory) (procMem : ProcessMemory) : Memory :=
  { m with
    memSegs := addNewFreeMemorySegmentToFreeMemorySegmentsList
      procMem.startAddress procMem.size m.memSegs }.modify procMem.ptr ProcessMemory.swappedOut

/-- Swaps out the largest process memory, the longest in memory among equals; also
returns which one that was.
SOURCE: memory-management.c:405-456 -/
def swapOutProcessMemory (m : Memory) : Except Fault (ℕ × Memory) :=
  match findSwapOut m.procMems with
  | none => .error .noVictim
  | some swapOutProcMem => .ok (swapOutProcMem.ptr, m.release swapOutProcMem)

/-- SOURCE: memory-management.c:458-476 -/
def swapOutProcessMemoryByProcessMemory (procMem : ℕ) (m : Memory) : Except Fault Memory :=
  match m.find procMem with
  | none => .error .invalidPointer
  | some p => .ok (if isProcessMemoryInDisk p then m else m.release p)

/-- The first-fit loop of `swap_in_process_memory`: the start address of the first
segment that is large enough, and the list after that segment has been shrunk, or
deleted when nothing of it is left.
SOURCE: memory-management.c:360-397 -/
def occupyFreeMemorySegment (size : ℤ) :
    List FreeMemorySegment → Option (ℤ × List FreeMemorySegment)
  | [] => none
  | currMemSeg :: rest =>
    if size ≤ currMemSeg.size then
      if currMemSeg.size - size = 0 then
        some (currMemSeg.startAddress, rest)
      else
        some (currMemSeg.startAddress,
          { startAddress := currMemSeg.startAddress - size
            size := currMemSeg.size - size } :: rest)
    else
      (occupyFreeMemorySegment size rest).map fun (startAddress, rest') =>
        (startAddress, currMemSeg :: rest')

/-- The outer loop of `swap_in_process_memory`, with the process memories it has
swapped out so far.
SOURCE: memory-management.c:357-400 -/
def swapInLoop (procMem : ℕ) (time : ℤ) :
    ℕ → Memory → List ℕ → Except Fault (Memory × List ℕ)
  | 0, _, _ => .error .diverges
  | fuel + 1, m, swappedOut =>
    match m.find procMem with
    | none => .error .invalidPointer
    | some p =>
      if isProcessMemoryInDisk p then
        match occupyFreeMemorySegment p.size m.memSegs with
        | some (startAddress, memSegs) =>
          .ok ({ m with memSegs := memSegs }.modify procMem (.swappedIn startAddress time),
            swappedOut)
        | none =>
          match swapOutProcessMemory m with
          | .error e => .error e
          | .ok (victim, m') => swapInLoop procMem time fuel m' (swappedOut ++ [victim])
      else
        .ok (m, swappedOut)

/-- Swaps in a process memory; also returns the process memories that were swapped
out for it, in order. Every pass that does not end the loop puts a process memory in
disk, so one pass more than there are process memories is enough.
SOURCE: memory-management.c:351-403 -/
def swapInProcessMemory (procMem : ℕ) (time : ℤ) (m : Memory) : Except Fault (Memory × List ℕ) :=
  swapInLoop procMem time (m.procMems.length + 1) m []

/-! ## Statistics -/

/-- SOURCE: memory-management.c:558-578 -/
def getProcessMemoriesListNotInDiskCount (procMemsList : List ProcessMemory) : ℤ :=
  (procMemsList.filter fun procMem => !isProcessMemoryInDisk procMem).length

/-- SOURCE: memory-management.c:580-600 -/
def getProcessMemoriesListNotInDiskSize (procMemsList : List ProcessMemory) : ℤ :=
  ((procMemsList.filter fun procMem => !isProcessMemoryInDisk procMem).map
    ProcessMemory.size).sum

end Comp30023.Model
