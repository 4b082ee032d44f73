import Comp30023.Library.Loop
import Comp30023.Model.MemoryManagement

/-!
# The process schedulers

`process-scheduler.c`: the process control blocks with their `next` links, the
operations on queues, and the loop bodies of the two runners.

A process control block lives in a heap, the list `pcbs`; a pointer is its index,
so `malloc` appends. A queue is its `head` pointer, taken and given back by the
operations that change it. `next` links are followed through the heap, and a walk
that takes more steps than there are blocks has met a cycle and `diverges`.

The runners print status lines and call into the memory manager. Both are recorded
in a `trace` of `Event`s, in program order, so that statements about what is
printed, when a process runs and what is swapped out are statements about the
trace. The clock is an exact integer.
-/

set_option autoImplicit false

namespace Comp30023.Model

open Comp30023.Library

/-- SOURCE: process-data-file-parser.h:25-31 -/
structure ScheduledProcess where
  startTime : ℤ
  processId : ℤ
  memorySize : ℤ
  jobTime : ℤ
deriving Repr, DecidableEq

/-- SOURCE: process-scheduler.h:10 -/
def minPriority : ℕ := 3

/-- The quanta of the three levels (`Q1_QUANTUM`, `Q2_QUANTUM`, `Q3_QUANTUM`), kept
open because the test outputs were made with several of them. -/
structure Quanta where
  q1 : ℤ
  q2 : ℤ
  q3 : ℤ
deriving Repr, DecidableEq

/-- The quanta the program is compiled with.
SOURCE: process-scheduler.h:11-13 -/
def defaultQuanta : Quanta := ⟨2, 4, 8⟩

/-- SOURCE: process-scheduler.h:18 -/
inductive ProcessState where
  | ready
  | running
  | terminated
deriving Repr, DecidableEq

/-- SOURCE: process-scheduler.h:21-31 -/
structure ProcessControlBlock where
  next : Option ℕ
  processId : ℤ
  processState : ProcessState
  processMemory : ℕ
  priority : ℕ
  jobTime : ℤ
  burstTime : ℤ
  cpuTime : ℤ
deriving Repr, DecidableEq

/-- The numbers of one line of `print_simulation_status`.
SOURCE: process-scheduler.c:258-264 -/
structure StatusLine where
  time : ℤ
  processId : ℤ
  numprocesses : ℤ
  numholes : ℤ
  memusage : ℤ
deriving Repr, DecidableEq

/-- What a runner does, in program order. The first component of each event is the
process control block it is about. -/
inductive Event where
  /-- `load_pcb` called `swap_in_process_memory` at this time, which swapped out these -/
  | swapIn (pcb : ℕ) (time : ℤ) (swappedOut : List ℕ)
  /-- `print_simulation_status` printed this line -/
  | status (pcb : ℕ) (line : StatusLine)
  /-- `run_pcb` was called in the time step that starts at this time -/
  | run (pcb : ℕ) (time : ℤ)
  /-- `ready_and_decrease_priority_pcb` was called -/
  | decreasePriority (pcb : ℕ)
  /-- `terminate_pcb` gave the memory back -/
  | release (pcb : ℕ)
deriving Repr, DecidableEq

/-! ## Process control blocks and queues -/

/-- Reading through a pointer to a process control block. -/
def getPcb (pcbs : List ProcessControlBlock) (pcb : ℕ) : Except Fault ProcessControlBlock :=
  match pcbs[pcb]? with
  | some b => .ok b
  | none => .error .invalidPointer

/-- Writing through a pointer to a process control block. -/
def modifyPcb (pcbs : List ProcessControlBlock) (pcb : ℕ)
    (f : ProcessControlBlock → ProcessControlBlock) : Except Fault (List ProcessControlBlock) :=
  match pcbs[pcb]? with
  | some b => .ok (pcbs.set pcb (f b))
  | none => .error .invalidPointer

/-- A new process control block and its process memory, which is put on the list.
SOURCE: process-scheduler.c:19-44 -/
def newProcessControlBlock (processId memorySize jobTime : ℤ) (pcbs : List ProcessControlBlock)
    (mem : Memory) : ℕ × List ProcessControlBlock × Memory :=
  let (processMemory, mem) := newProcessMemory memorySize processId mem
  let mem := addProcessMemoryToProcessMemoriesList processMemory mem
  (pcbs.length,
   pcbs ++ [{ next := none, processId := processId, processState := .ready,
              processMemory := processMemory.ptr, priority := 1, jobTime := jobTime,
              burstTime := 0, cpuTime := 0 }],
   mem)

/-- SOURCE: process-scheduler.c:46-55 -/
def newProcessControlBlockByScheduledProcess (sp : ScheduledProcess)
    (pcbs : List ProcessControlBlock) (mem : Memory) : ℕ × List ProcessControlBlock × Memory :=
  newProcessControlBlock sp.processId sp.memorySize sp.jobTime pcbs mem

/-- The popped process control block and the new head; `next` of the popped block is
not cleared.
SOURCE: process-scheduler.c:140-148 -/
def popFrontPcbFromPcbsQueue (pcbs : List ProcessControlBlock) (head : Option ℕ) :
    Except Fault (Option ℕ × Option ℕ) :=
  match head with
  | none => .ok (none, none)
  | some pcb => do
    let b ← getPcb pcbs pcb
    .ok (some pcb, b.next)

/-- The walk to the end of a list: `prev_pcb` when `curr_pcb` has become null.
SOURCE: process-scheduler.c:163-169 -/
def lastPcb (pcbs : List ProcessControlBlock) : ℕ → ℕ → Except Fault ℕ
  | 0, _ => .error .diverges
  | fuel + 1, currPcb => do
    let b ← getPcb pcbs currPcb
    match b.next with
    | none => .ok currPcb
    | some nextPcb => lastPcb pcbs fuel nextPcb

/-- Appends a process control block. When the list is empty the `next` link of the
block stays what it was.
SOURCE: process-scheduler.c:150-175 -/
def appendPcbToPcbsList (pcb : ℕ) (head : Option ℕ) (pcbs : List ProcessControlBlock) :
    Except Fault (Option ℕ × List ProcessControlBlock) :=
  match head with
  | none => .ok (some pcb, pcbs)
  | some first => do
    let prevPcb ← lastPcb pcbs pcbs.length first
    let pcbs ← modifyPcb pcbs prevPcb fun b => { b with next := some pcb }
    let pcbs ← modifyPcb pcbs pcb fun b => { b with next := none }
    .ok (some first, pcbs)

/-- `prev_pcb->next = pcb; pcb->next = curr_pcb;`
SOURCE: process-scheduler.c:117-118, 132-133 -/
def insertBehind (prevPcb : Option ℕ) (pcb : ℕ) (currPcb : Option ℕ)
    (pcbs : List ProcessControlBlock) : Except Fault (List ProcessControlBlock) :=
  match prevPcb with
  | none => .error .invalidPointer
  | some prevPcb => do
    let pcbs ← modifyPcb pcbs prevPcb fun b => { b with next := some pcb }
    modifyPcb pcbs pcb fun b => { b with next := currPcb }

/-- The process control block goes before `curr`.
SOURCE: process-scheduler.c:105-106 -/
def goesBefore (b curr : ProcessControlBlock) : Bool :=
  b.priority < curr.priority ∨ (b.priority = curr.priority ∧ b.processId < curr.processId)

/-- The walk to the sorted position: `prev_pcb` and `curr_pcb` when the loop is left.
SOURCE: process-scheduler.c:93-126 -/
def sortedPosition (b : ProcessControlBlock) (pcbs : List ProcessControlBlock) :
    ℕ → Option ℕ → Option ℕ → Except Fault (Option ℕ × Option ℕ)
  | _, prevPcb, none => .ok (prevPcb, none)
  | 0, _, some _ => .error .diverges
  | fuel + 1, prevPcb, some currPcb => do
    let curr ← getPcb pcbs currPcb
    if goesBefore b curr then .ok (prevPcb, some currPcb)
    else sortedPosition b pcbs fuel (some currPcb) curr.next

/-- Adds a process control block in the order of priorities, then of process ids. When the
queue is empty the `next` link of the block stays what it was.
SOURCE: process-scheduler.c:80-138 -/
def addPcbToPcbsQueue (pcb : ℕ) (head : Option ℕ) (pcbs : List ProcessControlBlock) :
    Except Fault (Option ℕ × List ProcessControlBlock) :=
  match head with
  | none => .ok (some pcb, pcbs)
  | some first => do
    let b ← getPcb pcbs pcb
    let (prevPcb, currPcb) ← sortedPosition b pcbs pcbs.length none (some first)
    if currPcb = some first then do
      let pcbs ← modifyPcb pcbs pcb fun b => { b with next := currPcb }
      .ok (some pcb, pcbs)
    else do
      let pcbs ← insertBehind prevPcb pcb currPcb pcbs
      .ok (some first, pcbs)

/-! ## What happens to one process control block -/

/-- The memory part of `load_pcb`.
SOURCE: process-scheduler.c:186-192 -/
def loadProcessMemory (pcb processMemory : ℕ) (time : ℤ) (mem : Memory) :
    Except Fault (Memory × List Event) :=
  match mem.find processMemory with
  | none => .error .invalidPointer
  | some p =>
    if isProcessMemoryInDisk p then do
      let (mem, swappedOut) ← swapInProcessMemory processMemory time mem
      .ok (mem, [.swapIn pcb time swappedOut])
    else
      .ok (mem, [])

/-- SOURCE: process-scheduler.c:182-200 -/
def loadPcb (pcb : ℕ) (time : ℤ) (pcbs : List ProcessControlBlock) (mem : Memory) :
    Except Fault (List ProcessControlBlock × Memory × List Event) := do
  let b ← getPcb pcbs pcb
  let (mem, events) ← loadProcessMemory pcb b.processMemory time mem
  let pcbs ← modifyPcb pcbs pcb fun b =>
    { b with next := none, processState := .running, burstTime := 0 }
  .ok (pcbs, mem, events)

/-- SOURCE: process-scheduler.c:202-208 -/
def runPcb (pcb : ℕ) (pcbs : List ProcessControlBlock) :
    Except Fault (List ProcessControlBlock) :=
  modifyPcb pcbs pcb fun b => { b with burstTime := b.burstTime + 1, cpuTime := b.cpuTime + 1 }

/-- SOURCE: process-scheduler.c:217-224 -/
def readyAndDecreasePriorityPcb (pcb : ℕ) (pcbs : List ProcessControlBlock) :
    Except Fault (List ProcessControlBlock) :=
  modifyPcb pcbs pcb fun b =>
    { b with
      priority := if b.priority + 1 > minPriority then minPriority else b.priority + 1
      processState := .ready
      burstTime := 0 }

/-- The memory part of `terminate_pcb`.
SOURCE: process-scheduler.c:229-235 -/
def releaseProcessMemory (pcb processMemory : ℕ) (mem : Memory) :
    Except Fault (Memory × List Event) :=
  match mem.find processMemory with
  | none => .error .invalidPointer
  | some p =>
    if isProcessMemoryInDisk p then
      .ok (mem, [])
    else do
      let mem ← swapOutProcessMemoryByProcessMemory processMemory mem
      .ok (mem, [.release pcb])

/-- SOURCE: process-scheduler.c:226-242 -/
def terminatePcb (pcb : ℕ) (pcbs : List ProcessControlBlock) (mem : Memory) :
    Except Fault (List ProcessControlBlock × Memory × List Event) := do
  let b ← getPcb pcbs pcb
  let (mem, events) ← releaseProcessMemory pcb b.processMemory mem
  let pcbs ← modifyPcb pcbs pcb fun b => { b with next := none, processState := .terminated }
  .ok (pcbs, mem, events)

/-- SOURCE: process-scheduler.c:244-247 -/
def isPcbFinished (b : ProcessControlBlock) : Bool := decide (b.cpuTime ≥ b.jobTime)

/-- SOURCE: process-scheduler.c:320-337 -/
def getQuantumByPcb (q : Quanta) (b : ProcessControlBlock) : ℤ :=
  match b.priority with
  | 1 => q.q1
  | 2 => q.q2
  | 3 => q.q3
  | _ => q.q3

/-- SOURCE: process-scheduler.c:339-342 -/
def isQuantumExhaustedByPcb (q : Quanta) (b : ProcessControlBlock) : Bool :=
  decide (b.burstTime ≥ getQuantumByPcb q b)

/-- The memory usage in percent, rounded up. C division truncates and a memory size
of zero is a division by zero.
SOURCE: process-scheduler.c:253-256 -/
def memUsageProportion (memusagesize memsize : ℤ) : ℤ :=
  (100 * memusagesize).tdiv memsize + if (100 * memusagesize).tmod memsize ≠ 0 then 1 else 0

/-- SOURCE: process-scheduler.c:249-266 -/
def printSimulationStatus (time : ℤ) (pcb : ℕ) (processId : ℤ) (mem : Memory) (memsize : ℤ) :
    Event :=
  .status pcb
    { time := time
      processId := processId
      numprocesses := getProcessMemoriesListNotInDiskCount mem.procMems
      numholes := getFreeMemorySegmentsListCount mem.memSegs
      memusage := memUsageProportion (getProcessMemoriesListNotInDiskSize mem.procMems) memsize }

/-! ## The runners -/

/-- The local variables of a runner at the top of its loop. `readyQs` holds the heads
of `ready_qs`, or of the single `ready_queue`; `spi` is the index of the next
scheduled process. -/
structure RunnerState where
  time : ℤ
  running : Option ℕ
  readyQs : List (Option ℕ)
  terminatedList : Option ℕ
  spi : ℕ
  pcbs : List ProcessControlBlock
  mem : Memory
  trace : List Event
deriving Repr, DecidableEq

/-- The head of `ready_qs[i]`. -/
def getQueue (readyQs : List (Option ℕ)) (i : ℕ) : Except Fault (Option ℕ) :=
  match readyQs[i]? with
  | some head => .ok head
  | none => .error .indexOutOfRange

/-- The loop of `check_scheduled_processes` over the scheduled processes from `spi` on.
SOURCE: process-scheduler.c:276-291 -/
def checkScheduledProcessesLoop (time : ℤ) :
    List ScheduledProcess → ℕ → Option ℕ → List ProcessControlBlock → Memory →
      Except Fault (ℕ × Option ℕ × List ProcessControlBlock × Memory)
  | [], spi, readyQueue, pcbs, mem => .ok (spi, readyQueue, pcbs, mem)
  | sp :: rest, spi, readyQueue, pcbs, mem =>
    if sp.startTime ≤ time then do
      let (pcb, pcbs, mem) := newProcessControlBlockByScheduledProcess sp pcbs mem
      let (readyQueue, pcbs) ← appendPcbToPcbsList pcb readyQueue pcbs
      checkScheduledProcessesLoop time rest (spi + 1) readyQueue pcbs mem
    else
      .ok (spi, readyQueue, pcbs, mem)

/-- The processes that are due enter the first ready queue.
SOURCE: process-scheduler.c:268-294 -/
def checkScheduledProcesses (sps : List ScheduledProcess) (s : RunnerState) :
    Except Fault RunnerState := do
  let readyQueue ← getQueue s.readyQs 0
  let (spi, readyQueue, pcbs, mem) ←
    checkScheduledProcessesLoop s.time (sps.drop s.spi) s.spi readyQueue s.pcbs s.mem
  .ok { s with spi := spi, readyQs := s.readyQs.set 0 readyQueue, pcbs := pcbs, mem := mem }

/-- `load_pcb` and `print_simulation_status` for the process that is about to run.
SOURCE: process-scheduler.c:391-395, 495-499 -/
def loadAndPrint (memsize : ℤ) (pcb : ℕ) (s : RunnerState) : Except Fault RunnerState := do
  let (pcbs, mem, events) ← loadPcb pcb s.time s.pcbs s.mem
  let b ← getPcb pcbs pcb
  .ok { s with
    pcbs := pcbs
    mem := mem
    trace := s.trace ++ events ++ [printSimulationStatus s.time pcb b.processId mem memsize] }

/-- One time step of the running process, if there is one.
SOURCE: process-scheduler.c:405-413, 509-517 -/
def executeTimeStep (s : RunnerState) : Except Fault RunnerState :=
  match s.running with
  | none => .ok { s with time := s.time + 1 }
  | some pcb => do
    let pcbs ← runPcb pcb s.pcbs
    .ok { s with pcbs := pcbs, time := s.time + 1, trace := s.trace ++ [.run pcb s.time] }

/-- The running process is finished: `terminate_pcb`, and on to `terminated_list`.
SOURCE: process-scheduler.c:418-423, 524-529 -/
def terminateRunning (pcb : ℕ) (s : RunnerState) : Except Fault RunnerState := do
  let (pcbs, mem, events) ← terminatePcb pcb s.pcbs s.mem
  let (terminatedList, pcbs) ← appendPcbToPcbsList pcb s.terminatedList pcbs
  .ok { s with
    running := none
    terminatedList := terminatedList
    pcbs := pcbs
    mem := mem
    trace := s.trace ++ events }

/-- No process is running: take the first one of the ready queue, or leave the loop.
SOURCE: process-scheduler.c:385-403 -/
def fcfsLoadNext (sps : List ScheduledProcess) (memsize : ℤ) (s : RunnerState) :
    Except Fault (Pass RunnerState) :=
  match s.running with
  | some _ => .ok (.again s)
  | none => do
    let readyQueue ← getQueue s.readyQs 0
    let (running, readyQueue) ← popFrontPcbFromPcbsQueue s.pcbs readyQueue
    let s := { s with running := running, readyQs := s.readyQs.set 0 readyQueue }
    match running with
    | some pcb => do
      let s ← loadAndPrint memsize pcb s
      .ok (.again s)
    | none =>
      if readyQueue = none ∧ sps[s.spi]? = none then .ok (.done s) else .ok (.again s)

/-- SOURCE: process-scheduler.c:418-423 -/
def fcfsFinish (s : RunnerState) : Except Fault RunnerState :=
  match s.running with
  | none => .ok s
  | some pcb => do
    let b ← getPcb s.pcbs pcb
    if isPcbFinished b then terminateRunning pcb s else .ok s

/-- One pass through the loop of `fcfs_scheduler_runner`.
SOURCE: process-scheduler.c:378-424 -/
def fcfsSchedulerPass (sps : List ScheduledProcess) (memsize : ℤ) (s : RunnerState) :
    Except Fault (Pass RunnerState) := do
  let s ← checkScheduledProcesses sps s
  match ← fcfsLoadNext sps memsize s with
  | .done s => .ok (.done s)
  | .again s => do
    let s ← executeTimeStep s
    let s ← fcfsFinish s
    .ok (.again s)

/-- The `for` loop over the ready queues, which stops at the first process it pops.
SOURCE: process-scheduler.c:489-492 -/
def popFrontOfReadyQs (pcbs : List ProcessControlBlock) :
    List (Option ℕ) → Except Fault (Option ℕ × List (Option ℕ))
  | [] => .ok (none, [])
  | readyQ :: rest => do
    let (running, readyQ) ← popFrontPcbFromPcbsQueue pcbs readyQ
    match running with
    | some pcb => .ok (some pcb, readyQ :: rest)
    | none => do
      let (running, rest) ← popFrontOfReadyQs pcbs rest
      .ok (running, readyQ :: rest)

/-- No process is running: take the first one of the highest ready queue that has one,
or leave the loop.
SOURCE: process-scheduler.c:486-507 -/
def multiLoadNext (sps : List ScheduledProcess) (memsize : ℤ) (s : RunnerState) :
    Except Fault (Pass RunnerState) :=
  match s.running with
  | some _ => .ok (.again s)
  | none => do
    let (running, readyQs) ← popFrontOfReadyQs s.pcbs s.readyQs
    let s := { s with running := running, readyQs := readyQs }
    match running with
    | some pcb => do
      let s ← loadAndPrint memsize pcb s
      .ok (.again s)
    | none => if sps[s.spi]? = none then .ok (.done s) else .ok (.again s)

/-- The running process has used up its quantum: it goes to the end of the next lower
queue, `ready_qs[running->priority - 1]` after its priority was decreased.
SOURCE: process-scheduler.c:533-538 -/
def requeueRunning (pcb : ℕ) (s : RunnerState) : Except Fault RunnerState := do
  let pcbs ← readyAndDecreasePriorityPcb pcb s.pcbs
  let b ← getPcb pcbs pcb
  match b.priority with
  | 0 => .error .indexOutOfRange
  | level + 1 => do
    let readyQ ← getQueue s.readyQs level
    let (readyQ, pcbs) ← appendPcbToPcbsList pcb readyQ pcbs
    .ok { s with
      running := none
      readyQs := s.readyQs.set level readyQ
      pcbs := pcbs
      trace := s.trace ++ [.decreasePriority pcb] }

/-- SOURCE: process-scheduler.c:519-539 -/
def multiFinish (q : Quanta) (s : RunnerState) : Except Fault RunnerState :=
  match s.running with
  | none => .ok s
  | some pcb => do
    let b ← getPcb s.pcbs pcb
    if isPcbFinished b then terminateRunning pcb s
    else if isQuantumExhaustedByPcb q b then requeueRunning pcb s
    else .ok s

/-- One pass through the loop of `multi_scheduler_runner`.
SOURCE: process-scheduler.c:479-540 -/
def multiSchedulerPass (q : Quanta) (sps : List ScheduledProcess) (memsize : ℤ)
    (s : RunnerState) : Except Fault (Pass RunnerState) := do
  let s ← checkScheduledProcesses sps s
  match ← multiLoadNext sps memsize s with
  | .done s => .ok (.done s)
  | .again s => do
    let s ← executeTimeStep s
    let s ← multiFinish q s
    .ok (.again s)

/-- The local variables when the loop is entered, with `levels` empty ready queues.
SOURCE: process-scheduler.c:346-376, 441-477 -/
def initialRunnerState (levels : ℕ) (memsize : ℤ) : RunnerState :=
  { time := 0
    running := none
    readyQs := List.replicate levels none
    terminatedList := none
    spi := 0
    pcbs := []
    mem := newMemory memsize
    trace := [] }

/-- SOURCE: process-scheduler.c:346-376 -/
def fcfsInitialState (memsize : ℤ) : RunnerState := initialRunnerState 1 memsize

/-- SOURCE: process-scheduler.c:441-477 -/
def multiInitialState (memsize : ℤ) : RunnerState := initialRunnerState minPriority memsize

/-- A line of the program's output. -/
inductive OutputLine where
  | status (line : StatusLine)
  | finished (time : ℤ)
deriving Repr, DecidableEq

/-- The status lines of a trace. -/
def statusLines (trace : List Event) : List StatusLine :=
  trace.filterMap fun
    | .status _ line => some line
    | _ => none

/-- What a runner that left its loop in this state has printed.
SOURCE: process-scheduler.c:426-427, 542-543 -/
def printed (s : RunnerState) : List OutputLine :=
  (statusLines s.trace).map .status ++ [.finished s.time]

end Comp30023.Model
