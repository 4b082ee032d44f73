import Comp30023.Interface.TickPlacement
import Comp30023.Interface.PcbHeap

/-!
# The runners and the tick scheduler, stage by stage

`Represents s a` says that the state `s` of a runner, with its heap of process control
blocks, is the state `a` of the scheduler of `TickScheduler`: the ready queues and the
terminated list lead through the heap to the tasks of `a`, in the same order; every
block holds the data of its task; the memory and the trace are what the history of `a`
makes of them.

Each stage of a pass is followed here on its own. A stage that calls the memory manager
faults exactly when replaying its action faults; no other stage can fault.
-/

set_option autoImplicit false

namespace Comp30023.Interface

open Comp30023.Library Comp30023.Model

/-- The block of a task, without its `next` link. -/
def blockOf (sps : List ScheduledProcess) (state : ProcessState) (e : Task) :
    Option ProcessControlBlock :=
  sps[e.proc]?.map fun sp =>
    { next := none
      processId := sp.processId
      processState := state
      processMemory := e.proc
      priority := e.level + 1
      jobTime := sp.jobTime
      burstTime := e.burst
      cpuTime := e.cpu }

/-- The lists of blocks that the terminated list and the ready queues lead to. -/
def Tick.chains (a : Tick) : List (List ℕ) :=
  a.terminated.map Task.proc :: a.queues.map (List.map Task.proc)

/-- The state of a runner is that of the tick scheduler. -/
structure Represents (P : Policy) (sps : List ScheduledProcess) (memsize : ℤ) (s : RunnerState)
    (a : Tick) : Prop where
  placed : a.Placed P
  bound : a.admitted ≤ sps.length
  time : s.time = a.time
  spi : s.spi = a.admitted
  blocks : s.pcbs.length = a.admitted
  running : s.running = a.running.map Task.proc
  links : QueuesIn s.pcbs (s.terminatedList :: s.readyQs) a.chains
  runningNext : ∀ r, a.running = some r → nextOf s.pcbs r.proc = none
  readyCore : ∀ e ∈ a.queues.flatten, coreOf s.pcbs e.proc = blockOf sps .ready e
  runningCore : ∀ r, a.running = some r → coreOf s.pcbs r.proc = blockOf sps .running r
  terminatedCore : ∀ e ∈ a.terminated, coreOf s.pcbs e.proc = blockOf sps .terminated e
  allocated : s.mem.allocated = a.admitted
  memory : replayed sps memsize a.history = .ok (s.mem, s.trace)

variable {P : Policy} {sps : List ScheduledProcess} {memsize : ℤ} {s : RunnerState} {a : Tick}

/-! ## The blocks of a state -/

/-- INTERNAL: the tasks of a state are those on the CPU and those in the chains. -/
theorem Tick.procs_perm_chains (a : Tick) :
    a.procs.Perm (a.running.toList.map Task.proc ++ a.chains.flatten) := by
  unfold Tick.procs Tick.chains
  rw [List.flatten_cons, ← List.map_flatten]
  refine List.perm_append_comm.trans ?_
  rw [List.append_assoc]

theorem Tick.Placed.chains_nodup (h : a.Placed P) : a.chains.flatten.Nodup := by
  have := a.procs_perm_chains.nodup_iff.mp h.nodup
  rw [List.nodup_append] at this
  exact this.2.1

theorem Tick.Placed.chains_lt (h : a.Placed P) {x : ℕ} (hx : x ∈ a.chains.flatten) :
    x < a.admitted :=
  h.lt (a.procs_perm_chains.mem_iff.mpr (List.mem_append_right _ hx))

theorem Tick.Placed.running_notMem (h : a.Placed P) {r : Task} (hr : a.running = some r) :
    r.proc ∉ a.chains.flatten := by
  have := a.procs_perm_chains.nodup_iff.mp h.nodup
  rw [List.nodup_append] at this
  intro hmem
  exact this.2.2 r.proc (by simp [hr]) r.proc hmem rfl

theorem Tick.Placed.running_lt (h : a.Placed P) {r : Task} (hr : a.running = some r) :
    r.proc < a.admitted :=
  h.lt (a.procs_perm_chains.mem_iff.mpr (List.mem_append_left _ (by simp [hr])))

theorem Tick.mem_chains_of_queued {e : Task} (he : e ∈ a.queues.flatten) :
    e.proc ∈ a.chains.flatten := by
  unfold Tick.chains
  rw [List.flatten_cons, ← List.map_flatten]
  exact List.mem_append_right _ (List.mem_map_of_mem he)

theorem Tick.mem_chains_of_terminated {e : Task} (he : e ∈ a.terminated) :
    e.proc ∈ a.chains.flatten := by
  unfold Tick.chains
  rw [List.flatten_cons]
  exact List.mem_append_left _ (List.mem_map_of_mem he)

/-- INTERNAL: a task whose number was admitted is a process of the file. -/
theorem Represents.exists_sp (h : Represents P sps memsize s a) {proc : ℕ}
    (hlt : proc < a.admitted) : ∃ sp, sps[proc]? = some sp :=
  ⟨_, List.getElem?_eq_getElem (lt_of_lt_of_le hlt h.bound)⟩

/-- INTERNAL: the block of the running process. -/
theorem Represents.running_block (h : Represents P sps memsize s a) {r : Task}
    (hr : a.running = some r) : ∃ sp, sps[r.proc]? = some sp ∧
      s.pcbs[r.proc]? = some
        { next := none, processId := sp.processId, processState := .running,
          processMemory := r.proc, priority := r.level + 1, jobTime := sp.jobTime,
          burstTime := r.burst, cpuTime := r.cpu } := by
  obtain ⟨sp, hsp⟩ := h.exists_sp (h.placed.running_lt hr)
  have hcore := h.runningCore r hr
  rw [blockOf, hsp, Option.map_some] at hcore
  have hget := getElem?_of_coreOf hcore
  rw [h.runningNext r hr] at hget
  exact ⟨sp, hsp, hget⟩

/-- INTERNAL: there is a first ready queue. -/
theorem Represents.first_queue (h : Represents P sps memsize s a) (hlevels : 0 < P.levels) :
    ∃ head q, s.readyQs[0]? = some head ∧ a.chains[1]? = some q ∧
      s.readyQs.set 0 head = s.readyQs := by
  have hlen : 0 < a.queues.length := by rw [h.placed.levels]; exact hlevels
  obtain ⟨q, hq⟩ : ∃ q, a.queues[0]? = some q := ⟨_, List.getElem?_eq_getElem hlen⟩
  have hchain : a.chains[1]? = some (q.map Task.proc) := by simp [Tick.chains, hq]
  obtain ⟨head, hhead, -⟩ := h.links.linked hchain
  have hhead' : s.readyQs[0]? = some head := by simpa using hhead
  refine ⟨head, _, hhead', hchain, ?_⟩
  obtain ⟨hlt, heq⟩ := List.getElem?_eq_some_iff.mp hhead'
  rw [← heq, List.set_getElem_self]

/-! ## Admission -/

/-- INTERNAL: one process of the file gets a block and enters the first ready queue.
SOURCE: process-scheduler.c:276-291 -/
theorem Represents.admitOne (h : Represents P sps memsize s a) (hlevels : 0 < P.levels)
    {sp : ScheduledProcess} (hsp : sps[a.admitted]? = some sp) :
    ∃ head head' pcbs', s.readyQs[0]? = some head ∧
      appendPcbToPcbsList
        (newProcessControlBlockByScheduledProcess sp s.pcbs s.mem).1 head
        (newProcessControlBlockByScheduledProcess sp s.pcbs s.mem).2.1 = .ok (head', pcbs') ∧
      Represents P sps memsize
        { s with
          spi := s.spi + 1
          readyQs := s.readyQs.set 0 head'
          pcbs := pcbs'
          mem := (newProcessControlBlockByScheduledProcess sp s.pcbs s.mem).2.2 }
        a.admitOne := by
  set block : ProcessControlBlock :=
    { next := none, processId := sp.processId, processState := .ready,
      processMemory := s.mem.allocated, priority := 1, jobTime := sp.jobTime,
      burstTime := 0, cpuTime := 0 } with hblock
  have hnew : newProcessControlBlockByScheduledProcess sp s.pcbs s.mem =
      (s.pcbs.length, s.pcbs ++ [block],
        addNewProcessMemoryToProcessMemoriesList sp.memorySize sp.processId s.mem) := rfl
  rw [hnew]
  have hnodup := h.placed.chains_nodup
  have hlt : ∀ x ∈ a.chains.flatten, x < s.pcbs.length := fun x hx => by
    rw [h.blocks]
    exact h.placed.chains_lt hx
  have hlinks : QueuesIn (s.pcbs ++ [block]) (s.terminatedList :: s.readyQs) a.chains := by
    apply h.links.congr
    intro x hx
    rw [nextOf_append_new, if_neg (Nat.ne_of_lt (hlt x hx))]
  obtain ⟨-, q₁, -, hq₁, -⟩ := h.first_queue hlevels
  obtain ⟨head, head', pcbs', hhead, happ, hq, hframe, hcore, hlen⟩ :=
    hlinks.append hnodup (fun x hx => by simp; have := hlt x hx; omega) hq₁
      (show s.pcbs.length < (s.pcbs ++ [block]).length by simp)
      (fun hmem => Nat.lt_irrefl _ (hlt _ hmem))
      (by rw [nextOf_append_new, if_pos rfl])
  have hpush : pushAt 1 s.pcbs.length a.chains = a.admitOne.chains := by
    unfold Tick.chains Tick.admitOne
    rw [pushAt_map, h.blocks]
    rfl
  rw [hpush] at hq
  refine ⟨head, head', pcbs', hhead, happ, ?_⟩
  have hcore' : ∀ i, i ≠ s.pcbs.length → coreOf pcbs' i = coreOf s.pcbs i := by
    intro i hi
    rw [hcore, coreOf_append_new, if_neg hi]
  have hold : ∀ x ∈ a.chains.flatten, x ≠ s.pcbs.length := by
    intro x hx
    exact Nat.ne_of_lt (hlt x hx)
  refine
    { placed := h.placed.admitOne hlevels
      bound := (List.getElem?_eq_some_iff.mp hsp).1
      time := h.time
      spi := by simp [Tick.admitOne, h.spi]
      blocks := by simp [Tick.admitOne, hlen, h.blocks]
      running := h.running
      links := hq
      runningNext := ?_
      readyCore := ?_
      runningCore := ?_
      terminatedCore := ?_
      allocated := ?_
      memory := ?_ }
  · intro r hr
    have hr' : a.running = some r := hr
    have hrlt := h.placed.running_lt hr'
    show nextOf pcbs' r.proc = none
    rw [hframe _ (h.placed.running_notMem hr'), nextOf_append_new,
      if_neg (by rw [h.blocks]; omega), h.runningNext r hr']
  · intro e he
    have hfirst : 0 < a.queues.length := by rw [h.placed.levels]; exact hlevels
    have hperm := pushAt_perm hfirst (⟨a.admitted, 0, 0, 0⟩ : Task)
    rcases List.mem_cons.mp (hperm.mem_iff.mp he) with rfl | he
    · show coreOf pcbs' a.admitted = _
      rw [hcore, coreOf_append_new, if_pos h.blocks.symm, blockOf, hsp, hblock, h.allocated]
      rfl
    · show coreOf pcbs' e.proc = _
      rw [hcore' _ (hold _ (a.mem_chains_of_queued he))]
      exact h.readyCore e he
  · intro r hr
    have hr' : a.running = some r := hr
    have hrlt := h.placed.running_lt hr'
    show coreOf pcbs' r.proc = _
    rw [hcore' _ (by rw [h.blocks]; omega)]
    exact h.runningCore r hr'
  · intro e he
    show coreOf pcbs' e.proc = _
    rw [hcore' _ (hold _ (a.mem_chains_of_terminated he))]
    exact h.terminatedCore e he
  · show s.mem.allocated + 1 = a.admitted + 1
    rw [h.allocated]
  · show replayed sps memsize (a.history ++ [.arrive a.admitted]) = _
    rw [replayed_snoc h.memory]
    simp only [Action.perform, hsp, List.append_nil]

/-- INTERNAL: the whole loop of `check_scheduled_processes`.
SOURCE: process-scheduler.c:276-291 -/
theorem Represents.admitFrom (h : Represents P sps memsize s a) (hlevels : 0 < P.levels)
    (rest : List ScheduledProcess) (hrest : rest = sps.drop a.admitted) :
    ∃ head spi' head' pcbs' mem', s.readyQs[0]? = some head ∧
      checkScheduledProcessesLoop s.time rest s.spi head s.pcbs s.mem =
        .ok (spi', head', pcbs', mem') ∧
      Represents P sps memsize
        { s with spi := spi', readyQs := s.readyQs.set 0 head', pcbs := pcbs', mem := mem' }
        (a.admitFrom rest) := by
  induction rest generalizing s a with
  | nil =>
    obtain ⟨head, -, hhead, -, hset⟩ := h.first_queue hlevels
    refine ⟨head, _, _, _, _, hhead, rfl, ?_⟩
    rw [hset]
    exact h
  | cons sp rest ih =>
    have hsp : sps[a.admitted]? = some sp := by
      have := congrArg (·[0]?) hrest
      simpa using this.symm
    have hrest' : rest = sps.drop (a.admitted + 1) := by
      have := congrArg List.tail hrest
      simpa [List.tail_drop] using this
    unfold checkScheduledProcessesLoop Tick.admitFrom
    by_cases hdue : sp.startTime ≤ a.time
    · have hdue' : sp.startTime ≤ s.time := by rw [h.time]; exact hdue
      simp only [if_pos hdue, if_pos hdue']
      obtain ⟨head, head₁, pcbs₁, hhead, happ, hone⟩ := h.admitOne hlevels hsp
      obtain ⟨head₂, spi', head', pcbs', mem', hhead₂, hloop, hfin⟩ := ih hone hrest'
      have hheadeq : head₂ = head₁ := by
        have hlt : 0 < s.readyQs.length := (List.getElem?_eq_some_iff.mp hhead).1
        simpa [hlt] using hhead₂.symm
      subst hheadeq
      refine ⟨head, spi', head', pcbs', mem', hhead, ?_, ?_⟩
      · simp only [bind, Except.bind, happ]
        exact hloop
      · simpa using hfin
    · have hdue' : ¬ sp.startTime ≤ s.time := by rw [h.time]; exact hdue
      simp only [if_neg hdue, if_neg hdue']
      obtain ⟨head, -, hhead, -, hset⟩ := h.first_queue hlevels
      refine ⟨head, _, _, _, _, hhead, rfl, ?_⟩
      rw [hset]
      exact h

/-- The admission stage never faults and admits the processes that are due.
SOURCE: process-scheduler.c:268-294 -/
theorem Represents.arrive (h : Represents P sps memsize s a) (hlevels : 0 < P.levels) :
    ∃ s', checkScheduledProcesses sps s = .ok s' ∧ Represents P sps memsize s' (a.arrive sps) := by
  obtain ⟨head, spi', head', pcbs', mem', hhead, hloop, hrep⟩ := h.admitFrom hlevels _ rfl
  refine ⟨_, ?_, hrep⟩
  simp only [checkScheduledProcesses, getQueue, hhead, bind, Except.bind, h.spi]
  rw [h.spi] at hloop
  rw [hloop]

end Comp30023.Interface
