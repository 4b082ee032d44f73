import Comp30023.Model.MemoryManagement

/-!
# The usage report with 32-bit integers

Everywhere else C `int`s are exact integers. Here `get_process_memories_list_not_in_disk_size`
and the arithmetic of `print_simulation_status` are embedded once more with an `int` of 32
bits in two's complement. Every operation goes through `int`, which gives the machine's
result and keeps the exact one in a log, so that an operation that leaves the range of an
`int` can be seen.
-/

set_option autoImplicit false

namespace Comp30023.Model

/-- The values of an `int`. -/
def IsInt32 (x : ℤ) : Prop := -2147483648 ≤ x ∧ x ≤ 2147483647

instance (x : ℤ) : Decidable (IsInt32 x) := inferInstanceAs (Decidable (_ ∧ _))

/-- The `int` with the same last 32 bits. -/
def toInt32 (x : ℤ) : ℤ := (x + 2147483648) % 4294967296 - 2147483648

/-- An operation on `int`s with the exact result `x`: what the machine gets, and `x` in the
log. -/
def int (x : ℤ) : StateM (List ℤ) ℤ := do
  modify fun log => log ++ [x]
  return toInt32 x

/-- The loop of `get_process_memories_list_not_in_disk_size` with the `size` so far.
SOURCE: memory-management.c:588-597 -/
def notInDiskSizeLoop32 (size : ℤ) : List ProcessMemory → StateM (List ℤ) ℤ
  | [] => pure size
  | procMem :: rest =>
    if isProcessMemoryInDisk procMem then
      notInDiskSizeLoop32 size rest
    else do
      let size ← int (size + procMem.size)
      notInDiskSizeLoop32 size rest

/-- SOURCE: memory-management.c:580-600 -/
def getProcessMemoriesListNotInDiskSize32 (procMemsList : List ProcessMemory) :
    StateM (List ℤ) ℤ :=
  notInDiskSizeLoop32 0 procMemsList

/-- The number that `print_simulation_status` prints as `memusage`.
SOURCE: process-scheduler.c:253-256 -/
def memUsageProportion32 (procMemsList : List ProcessMemory) (memsize : ℤ) :
    StateM (List ℤ) ℤ := do
  let memusagesize ← getProcessMemoriesListNotInDiskSize32 procMemsList
  let memusageproportion ← int (100 * memusagesize)
  let quotient ← int (memusageproportion.tdiv memsize)
  let remainder ← int (memusageproportion.tmod memsize)
  int (quotient + if remainder ≠ 0 then 1 else 0)

/-- The printed `memusage`. -/
def memusage32 (procMemsList : List ProcessMemory) (memsize : ℤ) : ℤ :=
  ((memUsageProportion32 procMemsList memsize).run []).1

/-- The exact results of all operations on the way to it. -/
def memusageValues (procMemsList : List ProcessMemory) (memsize : ℤ) : List ℤ :=
  ((memUsageProportion32 procMemsList memsize).run []).2

end Comp30023.Model
