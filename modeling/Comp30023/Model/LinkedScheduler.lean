import Comp30023.Model.LinkedMemory
import Comp30023.Model.ProcessScheduler

/-!
# The runners on the linked memory

`process-scheduler.c` once more, now with the memory manager that has nodes and links. A process
control block has the address of the node of its process memory, and looks there whether the
process memory is in disk; the numbers of a status line are counted along the links. Behind the loop
a runner gives everything back. The operations on queues are those of `ProcessScheduler`.

What a runner prints is collected in `output`. The scheduled processes are not on a heap.
-/

set_option autoImplicit false

namespace Comp30023.Model

open Comp30023.Library

/-- The local variables of a runner at the top of its loop, and what it has printed. -/
structure LinkedRunner where
  time : ℤ
  running : Option ℕ
  readyQs : List (Option ℕ)
  terminatedList : Option ℕ
  spi : ℕ
  pcbs : List ProcessControlBlock
  mem : LinkedMemory
  output : List StatusLine

namespace LinkedRunner

/-! ## What happens to one process control block -/

/-- SOURCE: process-scheduler.c:19-44 -/
def newProcessControlBlock (mallocs : Mallocs) (processId memorySize jobTime : ℤ)
    (pcbs : List ProcessControlBlock) (mem : LinkedMemory) :
    Except Fault (ℕ × List ProcessControlBlock × LinkedMemory) := do
  let (processMemory, mem) := mem.newProcessMemory mallocs memorySize processId
  let mem ← mem.addProcessMemoryToProcessMemoriesList processMemory
  .ok (pcbs.length,
   pcbs ++ [{ next := none, processId := processId, processState := .ready,
              processMemory := processMemory, priority := 1, jobTime := jobTime,
              burstTime := 0, cpuTime := 0 }],
   mem)

/-- SOURCE: process-scheduler.c:46-55 -/
def newProcessControlBlockByScheduledProcess (mallocs : Mallocs) (sp : ScheduledProcess)
    (pcbs : List ProcessControlBlock) (mem : LinkedMemory) :
    Except Fault (ℕ × List ProcessControlBlock × LinkedMemory) :=
  newProcessControlBlock mallocs sp.processId sp.memorySize sp.jobTime pcbs mem

/-- SOURCE: process-scheduler.c:182-200 -/
def loadPcb (mallocs : Mallocs) (pcb : ℕ) (time : ℤ) (pcbs : List ProcessControlBlock)
    (mem : LinkedMemory) : Except Fault (List ProcessControlBlock × LinkedMemory) := do
  let b ← getPcb pcbs pcb
  let procMem ← mem.procMems.load Fault.invalidPointer (some b.processMemory)
  let mem ←
    if procMem.isInDisk then mem.swapInProcessMemory mallocs b.processMemory time else .ok mem
  let pcbs ← modifyPcb pcbs pcb fun b =>
    { b with next := none, processState := .running, burstTime := 0 }
  .ok (pcbs, mem)

/-- SOURCE: process-scheduler.c:226-242 -/
def terminatePcb (mallocs : Mallocs) (pcb : ℕ) (pcbs : List ProcessControlBlock)
    (mem : LinkedMemory) : Except Fault (List ProcessControlBlock × LinkedMemory) := do
  let b ← getPcb pcbs pcb
  let procMem ← mem.procMems.load Fault.invalidPointer (some b.processMemory)
  let mem ←
    if procMem.isInDisk then .ok mem
    else mem.swapOutProcessMemoryByProcessMemory mallocs b.processMemory
  let pcbs ← modifyPcb pcbs pcb fun b => { b with next := none, processState := .terminated }
  .ok (pcbs, mem)

/-- SOURCE: process-scheduler.c:249-266 -/
def printSimulationStatus (time processId : ℤ) (mem : LinkedMemory) (memsize : ℤ) :
    Except Fault StatusLine := do
  let memusagesize ← mem.getProcessMemoriesListNotInDiskSize
  let numprocesses ← mem.getProcessMemoriesListNotInDiskCount
  let numholes ← mem.getFreeMemorySegmentsListCount
  .ok { time := time
        processId := processId
        numprocesses := numprocesses
        numholes := numholes
        memusage := memUsageProportion memusagesize memsize }

/-! ## The runners -/

/-- SOURCE: process-scheduler.c:276-291 -/
def checkScheduledProcessesLoop (mallocs : Mallocs) (time : ℤ) :
    List ScheduledProcess → ℕ → Option ℕ → List ProcessControlBlock → LinkedMemory →
      Except Fault (ℕ × Option ℕ × List ProcessControlBlock × LinkedMemory)
  | [], spi, readyQueue, pcbs, mem => .ok (spi, readyQueue, pcbs, mem)
  | sp :: rest, spi, readyQueue, pcbs, mem =>
    if sp.startTime ≤ time then do
      let (pcb, pcbs, mem) ← newProcessControlBlockByScheduledProcess mallocs sp pcbs mem
      let (readyQueue, pcbs) ← appendPcbToPcbsList pcb readyQueue pcbs
      checkScheduledProcessesLoop mallocs time rest (spi + 1) readyQueue pcbs mem
    else
      .ok (spi, readyQueue, pcbs, mem)

/-- SOURCE: process-scheduler.c:268-294 -/
def checkScheduledProcesses (mallocs : Mallocs) (sps : List ScheduledProcess) (s : LinkedRunner) :
    Except Fault LinkedRunner := do
  let readyQueue ← getQueue s.readyQs 0
  let (spi, readyQueue, pcbs, mem) ←
    checkScheduledProcessesLoop mallocs s.time (sps.drop s.spi) s.spi readyQueue s.pcbs s.mem
  .ok { s with spi := spi, readyQs := s.readyQs.set 0 readyQueue, pcbs := pcbs, mem := mem }

/-- SOURCE: process-scheduler.c:391-395, 495-499 -/
def loadAndPrint (mallocs : Mallocs) (memsize : ℤ) (pcb : ℕ) (s : LinkedRunner) :
    Except Fault LinkedRunner := do
  let (pcbs, mem) ← loadPcb mallocs pcb s.time s.pcbs s.mem
  let b ← getPcb pcbs pcb
  let line ← printSimulationStatus s.time b.processId mem memsize
  .ok { s with pcbs := pcbs, mem := mem, output := s.output ++ [line] }

/-- SOURCE: process-scheduler.c:405-413, 509-517 -/
def executeTimeStep (s : LinkedRunner) : Except Fault LinkedRunner :=
  match s.running with
  | none => .ok { s with time := s.time + 1 }
  | some pcb => do
    let pcbs ← runPcb pcb s.pcbs
    .ok { s with pcbs := pcbs, time := s.time + 1 }

/-- SOURCE: process-scheduler.c:418-423, 524-529 -/
def terminateRunning (mallocs : Mallocs) (pcb : ℕ) (s : LinkedRunner) :
    Except Fault LinkedRunner := do
  let (pcbs, mem) ← terminatePcb mallocs pcb s.pcbs s.mem
  let (terminatedList, pcbs) ← appendPcbToPcbsList pcb s.terminatedList pcbs
  .ok { s with running := none, terminatedList := terminatedList, pcbs := pcbs, mem := mem }

/-- SOURCE: process-scheduler.c:385-403 -/
def fcfsLoadNext (mallocs : Mallocs) (sps : List ScheduledProcess) (memsize : ℤ)
    (s : LinkedRunner) : Except Fault (Pass LinkedRunner) :=
  match s.running with
  | some _ => .ok (.again s)
  | none => do
    let readyQueue ← getQueue s.readyQs 0
    let (running, readyQueue) ← popFrontPcbFromPcbsQueue s.pcbs readyQueue
    let s := { s with running := running, readyQs := s.readyQs.set 0 readyQueue }
    match running with
    | some pcb => do
      let s ← loadAndPrint mallocs memsize pcb s
      .ok (.again s)
    | none =>
      if readyQueue = none ∧ sps[s.spi]? = none then .ok (.done s) else .ok (.again s)

/-- SOURCE: process-scheduler.c:418-423 -/
def fcfsFinish (mallocs : Mallocs) (s : LinkedRunner) : Except Fault LinkedRunner :=
  match s.running with
  | none => .ok s
  | some pcb => do
    let b ← getPcb s.pcbs pcb
    if isPcbFinished b then terminateRunning mallocs pcb s else .ok s

/-- One pass through the loop of `fcfs_scheduler_runner`.
SOURCE: process-scheduler.c:378-424 -/
def fcfsSchedulerPass (mallocs : Mallocs) (sps : List ScheduledProcess) (memsize : ℤ)
    (s : LinkedRunner) : Except Fault (Pass LinkedRunner) := do
  let s ← checkScheduledProcesses mallocs sps s
  match ← fcfsLoadNext mallocs sps memsize s with
  | .done s => .ok (.done s)
  | .again s => do
    let s ← executeTimeStep s
    let s ← fcfsFinish mallocs s
    .ok (.again s)

/-- SOURCE: process-scheduler.c:486-507 -/
def multiLoadNext (mallocs : Mallocs) (sps : List ScheduledProcess) (memsize : ℤ)
    (s : LinkedRunner) : Except Fault (Pass LinkedRunner) :=
  match s.running with
  | some _ => .ok (.again s)
  | none => do
    let (running, readyQs) ← popFrontOfReadyQs s.pcbs s.readyQs
    let s := { s with running := running, readyQs := readyQs }
    match running with
    | some pcb => do
      let s ← loadAndPrint mallocs memsize pcb s
      .ok (.again s)
    | none => if sps[s.spi]? = none then .ok (.done s) else .ok (.again s)

/-- SOURCE: process-scheduler.c:533-538 -/
def requeueRunning (pcb : ℕ) (s : LinkedRunner) : Except Fault LinkedRunner := do
  let pcbs ← readyAndDecreasePriorityPcb pcb s.pcbs
  let b ← getPcb pcbs pcb
  match b.priority with
  | 0 => .error .indexOutOfRange
  | level + 1 => do
    let readyQ ← getQueue s.readyQs level
    let (readyQ, pcbs) ← appendPcbToPcbsList pcb readyQ pcbs
    .ok { s with running := none, readyQs := s.readyQs.set level readyQ, pcbs := pcbs }

/-- SOURCE: process-scheduler.c:519-539 -/
def multiFinish (mallocs : Mallocs) (q : Quanta) (s : LinkedRunner) :
    Except Fault LinkedRunner :=
  match s.running with
  | none => .ok s
  | some pcb => do
    let b ← getPcb s.pcbs pcb
    if isPcbFinished b then terminateRunning mallocs pcb s
    else if isQuantumExhaustedByPcb q b then requeueRunning pcb s
    else .ok s

/-- One pass through the loop of `multi_scheduler_runner`.
SOURCE: process-scheduler.c:479-540 -/
def multiSchedulerPass (mallocs : Mallocs) (q : Quanta) (sps : List ScheduledProcess)
    (memsize : ℤ) (s : LinkedRunner) : Except Fault (Pass LinkedRunner) := do
  let s ← checkScheduledProcesses mallocs sps s
  match ← multiLoadNext mallocs sps memsize s with
  | .done s => .ok (.done s)
  | .again s => do
    let s ← executeTimeStep s
    let s ← multiFinish mallocs q s
    .ok (.again s)

/-- The local variables when the loop is entered, with `levels` empty ready queues.
SOURCE: process-scheduler.c:346-376, 441-477 -/
def initial (mallocs : Mallocs) (levels : ℕ) (memsize : ℤ) : LinkedRunner :=
  { time := 0
    running := none
    readyQs := List.replicate levels none
    terminatedList := none
    spi := 0
    pcbs := []
    mem := LinkedMemory.new mallocs memsize
    output := [] }

/-- What a runner that left its loop in this state has printed.
SOURCE: process-scheduler.c:426-427, 542-543 -/
def printed (s : LinkedRunner) : List OutputLine := s.output.map .status ++ [.finished s.time]

/-! ## The end -/

end LinkedRunner

end Comp30023.Model
