import Comp30023.Interface.RunnerTick

/-!
# Dispatching, executing and finishing a process

The stages of a pass after admission. Taking the next process from the ready queues
and loading it is where the memory manager can fault; the lemma about it therefore
compares results (`Matches`). Executing a time step and going back to a ready queue
never faults.
-/

set_option autoImplicit false

namespace Comp30023.Interface

open Comp30023.Library Comp30023.Model

variable {P : Policy} {sps : List ScheduledProcess} {memsize : ℤ} {s : RunnerState} {a : Tick}

/-- Replaying the history of the scheduler runs into this fault. -/
def FaultsAt (sps : List ScheduledProcess) (memsize : ℤ) (a : Tick) (e : Fault) : Prop :=
  replayed sps memsize a.history = .error e

/-! ## The memory manager does not allocate process memories by itself -/

/-- INTERNAL: swapping in allocates nothing.
SOURCE: memory-management.c:357-400 -/
theorem swapInLoop_allocated {ptr : ℕ} {time : ℤ} (fuel : ℕ) {m m' : Memory}
    {victims victims' : List ℕ}
    (h : swapInLoop ptr time fuel m victims = .ok (m', victims')) :
    m'.allocated = m.allocated := by
  induction fuel generalizing m victims with
  | zero => simp [swapInLoop] at h
  | succ fuel ih =>
    unfold swapInLoop at h
    cases hfind : m.find ptr with
    | none => simp [hfind] at h
    | some p =>
      simp only [hfind] at h
      by_cases hdisk : isProcessMemoryInDisk p = true
      · rw [if_pos hdisk] at h
        cases hocc : occupyFreeMemorySegment p.size m.memSegs with
        | some taken =>
          simp only [hocc, Except.ok.injEq, Prod.mk.injEq] at h
          rw [← h.1]
          rfl
        | none =>
          cases hv : findSwapOut m.procMems with
          | none => simp [hocc, swapOutProcessMemory, hv] at h
          | some v =>
            simp only [hocc, swapOutProcessMemory, hv] at h
            have hrest := ih h
            exact hrest
      · rw [if_neg hdisk, Except.ok.injEq, Prod.mk.injEq] at h
        rw [h.1]

/-- INTERNAL: loading a process memory allocates nothing.
SOURCE: process-scheduler.c:186-192 -/
theorem loadProcessMemory_allocated {pcb ptr : ℕ} {time : ℤ} {m m' : Memory}
    {events : List Event} (h : loadProcessMemory pcb ptr time m = .ok (m', events)) :
    m'.allocated = m.allocated := by
  unfold loadProcessMemory at h
  cases hfind : m.find ptr with
  | none => simp [hfind] at h
  | some p =>
    simp only [hfind] at h
    split at h
    · cases hsw : swapInProcessMemory ptr time m with
      | error e => simp [hsw, bind, Except.bind] at h
      | ok r =>
        simp only [hsw, bind, Except.bind, Except.ok.injEq, Prod.mk.injEq] at h
        rw [← h.1]
        exact swapInLoop_allocated _ hsw
    · simp only [Except.ok.injEq, Prod.mk.injEq] at h
      rw [h.1]

/-- INTERNAL: releasing a process memory allocates nothing.
SOURCE: process-scheduler.c:229-235 -/
theorem releaseProcessMemory_allocated {pcb ptr : ℕ} {m m' : Memory} {events : List Event}
    (h : releaseProcessMemory pcb ptr m = .ok (m', events)) : m'.allocated = m.allocated := by
  unfold releaseProcessMemory swapOutProcessMemoryByProcessMemory at h
  cases hfind : m.find ptr with
  | none => simp [hfind] at h
  | some p =>
    simp only [hfind] at h
    split at h <;> simp only [bind, Except.bind, Except.ok.injEq, Prod.mk.injEq] at h
    · rw [h.1]
    · rw [← h.1]
      rfl

/-! ## Dispatching -/

/-- INTERNAL: the search over the ready queues pops what the scheduler pops.
SOURCE: process-scheduler.c:489-492 -/
theorem popFrontOfReadyQs_sim {pcbs : List ProcessControlBlock} {heads : List (Option ℕ)}
    {qs : List (List Task)} (h : QueuesIn pcbs heads (qs.map (List.map Task.proc)))
    (hlt : ∀ e ∈ qs.flatten, e.proc < pcbs.length) :
    match popFirst qs with
    | none => popFrontOfReadyQs pcbs heads = .ok (none, heads)
    | some (e, qs') => ∃ heads', popFrontOfReadyQs pcbs heads = .ok (some e.proc, heads') ∧
        QueuesIn pcbs heads' (qs'.map (List.map Task.proc)) := by
  induction qs generalizing heads with
  | nil =>
    cases h
    rfl
  | cons q qs ih =>
    cases heads with
    | nil => cases h
    | cons head heads =>
      rw [List.map_cons] at h
      obtain ⟨hl, hrest⟩ := List.forall₂_cons.mp h
      cases q with
      | cons e q =>
        have helt := hlt e (by simp)
        refine ⟨nextOf pcbs e.proc :: heads, ?_, List.Forall₂.cons hl.2 hrest⟩
        simp only [popFrontOfReadyQs, popFront_cons hl helt, bind, Except.bind]
      | nil =>
        obtain ⟨hpop, rfl⟩ := popFront_nil hl
        have hih := ih hrest fun e he => hlt e (by simpa using he)
        simp only [popFirst]
        cases hp : popFirst qs with
        | none =>
          rw [hp] at hih
          simp only [Option.map_none, popFrontOfReadyQs, hpop, bind, Except.bind, hih]
        | some popped =>
          obtain ⟨e, qs'⟩ := popped
          rw [hp] at hih
          obtain ⟨heads', hok, hq⟩ := hih
          refine ⟨none :: heads', ?_, List.Forall₂.cons rfl hq⟩
          simp only [popFrontOfReadyQs, hpop, bind, Except.bind, hok]

/-- INTERNAL: the blocks of queued tasks are in the heap. -/
theorem Represents.queued_lt (h : Represents P sps memsize s a) {e : Task}
    (he : e ∈ a.queues.flatten) : e.proc < s.pcbs.length := by
  rw [h.blocks]
  exact h.placed.chains_lt (a.mem_chains_of_queued he)

/-- INTERNAL: the runner's state once the popped process is loaded and reported. -/
theorem Represents.taken (h : Represents P sps memsize s a) (hidle : a.running = none)
    {e : Task} {queues : List (List Task)} (hpop : popFirst a.queues = some (e, queues))
    {heads : List (Option ℕ)} (hq : QueuesIn s.pcbs heads (queues.map (List.map Task.proc)))
    {sp : ScheduledProcess} (hsp : sps[e.proc]? = some sp) {mem : Memory} {events : List Event}
    (hload : loadProcessMemory e.proc e.proc a.time s.mem = .ok (mem, events)) :
    Represents P sps memsize
      { s with
        time := a.time
        running := some e.proc
        readyQs := heads
        pcbs := s.pcbs.set e.proc
          { next := none, processId := sp.processId, processState := .running,
            processMemory := e.proc, priority := e.level + 1, jobTime := sp.jobTime,
            burstTime := 0, cpuTime := e.cpu }
        mem := mem
        trace := s.trace ++ events
          ++ [printSimulationStatus a.time e.proc sp.processId mem memsize] }
      (a.take e queues) := by
  have hmem : e ∈ a.queues.flatten := (popFirst_perm hpop).mem_iff.mpr List.mem_cons_self
  have hrest : ∀ x ∈ queues.flatten, x ∈ a.queues.flatten := fun x hx =>
    (popFirst_perm hpop).mem_iff.mpr (List.mem_cons_of_mem _ hx)
  have hlt := h.queued_lt hmem
  have htake := h.placed.take hidle hpop
  -- the popped block is in none of the remaining chains
  have hnot : e.proc ∉ (a.take e queues).chains.flatten :=
    htake.running_notMem (r := { e with burst := 0 }) rfl
  have hlinks : QueuesIn s.pcbs (s.terminatedList :: heads) (a.take e queues).chains :=
    List.Forall₂.cons (List.forall₂_cons.mp h.links).1 hq
  refine
    { placed := htake
      bound := h.bound
      time := rfl
      spi := h.spi
      blocks := by simp [Tick.take, h.blocks]
      running := rfl
      links := hlinks.congr fun x hx => ?_
      runningNext := ?_
      readyCore := ?_
      runningCore := ?_
      terminatedCore := ?_
      allocated := (loadProcessMemory_allocated hload).trans h.allocated
      memory := ?_ }
  · have hne : x ≠ e.proc := by
      intro heq
      exact hnot (heq ▸ hx)
    rw [nextOf_set hlt, if_neg hne]
  · rintro r hr
    obtain rfl := Option.some.inj hr
    exact (nextOf_set hlt _ _).trans (if_pos rfl)
  · intro x hx
    have hne : x.proc ≠ e.proc := fun heq =>
      hnot (heq ▸ (a.take e queues).mem_chains_of_queued hx)
    show coreOf (s.pcbs.set e.proc _) x.proc = _
    rw [coreOf_set hlt, if_neg hne]
    exact h.readyCore x (hrest x hx)
  · rintro r hr
    obtain rfl := Option.some.inj hr
    show coreOf (s.pcbs.set e.proc _) e.proc = _
    rw [coreOf_set hlt, if_pos rfl, blockOf, hsp]
    rfl
  · intro x hx
    have hne : x.proc ≠ e.proc := fun heq =>
      hnot (heq ▸ (a.take e queues).mem_chains_of_terminated hx)
    show coreOf (s.pcbs.set e.proc _) x.proc = _
    rw [coreOf_set hlt, if_neg hne]
    exact h.terminatedCore x hx
  · show replayed sps memsize (a.history ++ [.dispatch e.proc a.time]) = _
    rw [replayed_snoc h.memory]
    simp [Action.perform, hsp, hload]

/-- INTERNAL: the popped process is loaded and reported, or loading it faults as its
dispatch does.
SOURCE: process-scheduler.c:182-200, 495-499 -/
theorem Represents.take (h : Represents P sps memsize s a) (hidle : a.running = none)
    {e : Task} {queues : List (List Task)} (hpop : popFirst a.queues = some (e, queues))
    {heads : List (Option ℕ)} (hq : QueuesIn s.pcbs heads (queues.map (List.map Task.proc))) :
    Matches (Represents P sps memsize) (FaultsAt sps memsize)
      ((loadAndPrint memsize e.proc { s with running := some e.proc, readyQs := heads }).map
        Pass.again)
      (.again (a.take e queues)) := by
  have hmem : e ∈ a.queues.flatten := (popFirst_perm hpop).mem_iff.mpr List.mem_cons_self
  have hlt := h.queued_lt hmem
  obtain ⟨sp, hsp⟩ := h.exists_sp (by rw [← h.blocks]; exact hlt)
  have hcore := h.readyCore e hmem
  rw [blockOf, hsp, Option.map_some] at hcore
  have hget := getElem?_of_coreOf hcore
  unfold loadAndPrint loadPcb
  simp only [getPcb_ok hget, bind, Except.bind]
  rw [h.time]
  cases hload : loadProcessMemory e.proc e.proc a.time s.mem with
  | error f =>
    have hhist := replayed_snoc h.memory (.dispatch e.proc a.time)
    have hperform : Action.perform sps memsize (.dispatch e.proc a.time) s.mem = .error f := by
      simp [Action.perform, hsp, hload]
    rw [hperform] at hhist
    exact Matches.fault hhist
  | ok r =>
    have hgot : (s.pcbs.set e.proc
        { next := none, processId := sp.processId, processState := .running,
          processMemory := e.proc, priority := e.level + 1, jobTime := sp.jobTime,
          burstTime := 0, cpuTime := e.cpu })[e.proc]? = some
        { next := none, processId := sp.processId, processState := .running,
          processMemory := e.proc, priority := e.level + 1, jobTime := sp.jobTime,
          burstTime := 0, cpuTime := e.cpu } := List.getElem?_set_self hlt
    simp only [modifyPcb_ok hget, getPcb_ok hgot]
    exact Matches.again (h.taken hidle hpop hq hsp hload)

/-- The dispatch stage of the multi-level feedback queue.
SOURCE: process-scheduler.c:486-507 -/
theorem Represents.multiLoadNext (h : Represents P sps memsize s a) :
    Matches (Represents P sps memsize) (FaultsAt sps memsize)
      (multiLoadNext sps memsize s) (a.dispatch sps) := by
  have hpopsim := popFrontOfReadyQs_sim (List.forall₂_cons.mp h.links).2
    fun e he => h.queued_lt he
  unfold Model.multiLoadNext
  rcases a.dispatch_cases sps with ⟨r, hr, hd⟩ | ⟨hidle, e, queues, hpop, hd⟩ |
    ⟨hidle, hpop, hend, hd⟩ | ⟨hidle, hpop, hend, hd⟩ <;> rw [hd]
  · rw [h.running, hr]
    exact Matches.again h
  · rw [hpop] at hpopsim
    obtain ⟨heads, hok, hq⟩ := hpopsim
    have htake := h.take hidle hpop hq
    rw [h.running, hidle]
    simp only [Option.map_none, hok, bind, Except.bind]
    cases hload : loadAndPrint memsize e.proc
        { s with running := some e.proc, readyQs := heads } with
    | error f =>
      rw [hload] at htake
      exact htake
    | ok s' =>
      rw [hload] at htake
      exact htake
  · rw [hpop] at hpopsim
    have hnone : s.running = none := by rw [h.running, hidle]; rfl
    have hend' : sps[s.spi]? ≠ none := by rw [h.spi]; exact hend
    have hs : { s with running := none } = s := by rw [← hnone]
    simp only [hnone, hpopsim, bind, Except.bind, if_neg hend']
    apply Matches.again
    rw [hs]
    exact h
  · rw [hpop] at hpopsim
    have hnone : s.running = none := by rw [h.running, hidle]; rfl
    have hend' : sps[s.spi]? = none := by rw [h.spi]; exact hend
    have hs : { s with running := none } = s := by rw [← hnone]
    simp only [hnone, hpopsim, bind, Except.bind, if_pos hend']
    apply Matches.done
    rw [hs]
    exact h

/-- INTERNAL: with a single ready queue both runners take the next process in the same
way; the extra test of the queue's head is always true there.
SOURCE: process-scheduler.c:385-403, 486-507 -/
theorem fcfsLoadNext_eq_multiLoadNext {readyQueue : Option ℕ} (hq : s.readyQs = [readyQueue]) :
    fcfsLoadNext sps memsize s = multiLoadNext sps memsize s := by
  unfold fcfsLoadNext multiLoadNext
  cases hr : s.running with
  | some pcb => rfl
  | none =>
    simp only [hq, getQueue, popFrontOfReadyQs, List.getElem?_cons_zero, bind, Except.bind]
    cases readyQueue with
    | none => simp [popFrontPcbFromPcbsQueue]
    | some pcb =>
      simp only [popFrontPcbFromPcbsQueue, bind, Except.bind]
      cases hg : getPcb s.pcbs pcb with
      | error f => rfl
      | ok b => rfl

/-! ## Executing -/

/-- The execution stage never faults and runs the same process.
SOURCE: process-scheduler.c:202-208, 509-517 -/
theorem Represents.execute (h : Represents P sps memsize s a) :
    ∃ s', executeTimeStep s = .ok s' ∧ Represents P sps memsize s' a.execute := by
  have hplaced := h.placed.execute
  unfold executeTimeStep
  cases hr : a.running with
  | none =>
    have hnone : s.running = none := by rw [h.running, hr]; rfl
    have hexec : a.execute = { a with time := a.time + 1 } := by simp only [Tick.execute, hr]
    rw [hexec] at hplaced ⊢
    exact ⟨{ s with time := s.time + 1 }, by simp only [hnone],
      { h with placed := hplaced, time := by simp only [h.time] }⟩
  | some r =>
    obtain ⟨sp, hsp, hget⟩ := h.running_block hr
    have hlt : r.proc < s.pcbs.length := by rw [h.blocks]; exact h.placed.running_lt hr
    have hnot := h.placed.running_notMem hr
    have hsome : s.running = some r.proc := by rw [h.running, hr]; rfl
    have hexec : a.execute = { a with
        time := a.time + 1
        running := some { r with burst := r.burst + 1, cpu := r.cpu + 1 }
        history := a.history ++ [.run r.proc a.time] } := by simp only [Tick.execute, hr]
    rw [hexec] at hplaced ⊢
    simp only [hsome, runPcb, modifyPcb_ok hget, bind, Except.bind]
    refine ⟨_, rfl, ?_⟩
    refine
      { placed := hplaced
        bound := h.bound
        time := by simp [h.time]
        spi := h.spi
        blocks := by simp [h.blocks]
        running := rfl
        links := h.links.congr fun x hx => ?_
        runningNext := ?_
        readyCore := ?_
        runningCore := ?_
        terminatedCore := ?_
        allocated := h.allocated
        memory := ?_ }
    · have hne : x ≠ r.proc := by
        intro heq
        exact hnot (heq ▸ hx)
      rw [nextOf_set hlt, if_neg hne]
    · rintro r' hr'
      obtain rfl := Option.some.inj hr'
      exact (nextOf_set hlt _ _).trans (if_pos rfl)
    · intro x hx
      have hne : x.proc ≠ r.proc := by
        intro heq
        exact hnot (heq ▸ a.mem_chains_of_queued hx)
      show coreOf (s.pcbs.set r.proc _) x.proc = _
      rw [coreOf_set hlt, if_neg hne]
      exact h.readyCore x hx
    · rintro r' hr'
      obtain rfl := Option.some.inj hr'
      show coreOf (s.pcbs.set r.proc _) r.proc = _
      rw [coreOf_set hlt, if_pos rfl, blockOf, hsp]
      rfl
    · intro x hx
      have hne : x.proc ≠ r.proc := by
        intro heq
        exact hnot (heq ▸ a.mem_chains_of_terminated hx)
      show coreOf (s.pcbs.set r.proc _) x.proc = _
      rw [coreOf_set hlt, if_neg hne]
      exact h.terminatedCore x hx
    · show replayed sps memsize (a.history ++ [.run r.proc a.time]) = _
      rw [replayed_snoc h.memory, h.time]
      rfl

/-! ## Leaving the CPU -/

/-- INTERNAL: the running process leaves the CPU: its block gets a new core and goes to the
end of one of the chains. Both ways of leaving are instances.
SOURCE: process-scheduler.c:524-538 -/
theorem Represents.leave (h : Represents P sps memsize s a) {r : Task} (hr : a.running = some r)
    (b : ProcessControlBlock) (hb : b.next = none) {k : ℕ} {q : List ℕ}
    (hk : a.chains[k]? = some q) :
    ∃ head head' pcbs', (s.terminatedList :: s.readyQs)[k]? = some head ∧
      appendPcbToPcbsList r.proc head (s.pcbs.set r.proc b) = .ok (head', pcbs') ∧
      QueuesIn pcbs' ((s.terminatedList :: s.readyQs).set k head') (pushAt k r.proc a.chains) ∧
      coreOf pcbs' r.proc = some b ∧
      (∀ x ∈ a.chains.flatten, coreOf pcbs' x = coreOf s.pcbs x) ∧
      pcbs'.length = s.pcbs.length := by
  have hlt : r.proc < s.pcbs.length := by rw [h.blocks]; exact h.placed.running_lt hr
  have hnot := h.placed.running_notMem hr
  have hlinks : QueuesIn (s.pcbs.set r.proc b) (s.terminatedList :: s.readyQs) a.chains := by
    apply h.links.congr
    intro x hx
    have hne : x ≠ r.proc := by
      intro heq
      exact hnot (heq ▸ hx)
    rw [nextOf_set hlt, if_neg hne]
  obtain ⟨head, head', pcbs', hhead, happ, hq, -, hcore, hlen⟩ :=
    hlinks.append h.placed.chains_nodup
      (fun x hx => by simp only [List.length_set]; rw [h.blocks]; exact h.placed.chains_lt hx)
      hk (show r.proc < (s.pcbs.set r.proc b).length by simpa using hlt) hnot
      (by rw [nextOf_set hlt, if_pos rfl, hb])
  refine ⟨head, head', pcbs', hhead, happ, hq, ?_, fun x hx => ?_, by simpa using hlen⟩
  · rw [hcore, coreOf_set hlt, if_pos rfl]
    cases b
    simp only [Option.some.injEq]
    simpa using hb.symm
  · have hne : x ≠ r.proc := by
      intro heq
      exact hnot (heq ▸ hx)
    rw [hcore, coreOf_set hlt, if_neg hne]

/-- A finished process goes to the terminated list.
SOURCE: process-scheduler.c:226-242, 524-529 -/
theorem Represents.terminate (h : Represents P sps memsize s a) {r : Task}
    (hr : a.running = some r) :
    Matches (Represents P sps memsize) (FaultsAt sps memsize)
      ((terminateRunning r.proc s).map Pass.again) (.again (a.terminate r)) := by
  obtain ⟨sp, hsp, hget⟩ := h.running_block hr
  have hhist := replayed_snoc h.memory (.terminate r.proc)
  simp only [Action.perform] at hhist
  unfold terminateRunning terminatePcb
  simp only [getPcb_ok hget, bind, Except.bind]
  cases hrel : releaseProcessMemory r.proc r.proc s.mem with
  | error f =>
    rw [hrel] at hhist
    exact Matches.fault hhist
  | ok result =>
    obtain ⟨mem, events⟩ := result
    rw [hrel] at hhist
    simp only [modifyPcb_ok hget]
    set block : ProcessControlBlock :=
      { next := none, processId := sp.processId, processState := .terminated,
        processMemory := r.proc, priority := r.level + 1, jobTime := sp.jobTime,
        burstTime := r.burst, cpuTime := r.cpu } with hblock
    obtain ⟨head, head', pcbs', hhead, happ, hq, hcoreR, hcore, hlen⟩ :=
      h.leave hr block rfl (k := 0) rfl
    obtain rfl : s.terminatedList = head := by simpa using hhead
    simp only [happ]
    apply Matches.again
    have hchains : pushAt 0 r.proc a.chains = (a.terminate r).chains := by
      simp [pushAt, Tick.chains, Tick.terminate]
    rw [hchains] at hq
    refine
      { placed := h.placed.terminate hr
        bound := h.bound
        time := h.time
        spi := h.spi
        blocks := by simp [Tick.terminate, hlen, h.blocks]
        running := rfl
        links := hq
        runningNext := by simp [Tick.terminate]
        readyCore := ?_
        runningCore := by simp [Tick.terminate]
        terminatedCore := ?_
        allocated := (releaseProcessMemory_allocated hrel).trans h.allocated
        memory := hhist }
    · intro x hx
      exact (hcore _ (a.mem_chains_of_queued hx)).trans (h.readyCore x hx)
    · intro x hx
      rcases List.mem_append.mp hx with hx | hx
      · exact (hcore _ (a.mem_chains_of_terminated hx)).trans (h.terminatedCore x hx)
      · rw [List.mem_singleton.mp hx]
        show coreOf pcbs' r.proc = _
        rw [hcoreR, blockOf, hsp]
        rfl

/-- A process whose quantum is used up goes to the end of the next ready queue.
SOURCE: process-scheduler.c:217-224, 533-538 -/
theorem Represents.requeue (h : Represents P sps memsize s a) (hlevels : P.levels = minPriority)
    {r : Task} (hr : a.running = some r) :
    ∃ s', requeueRunning r.proc s = .ok s' ∧ Represents P sps memsize s' (a.requeue P r) := by
  obtain ⟨sp, hsp, hget⟩ := h.running_block hr
  have hlt : r.proc < s.pcbs.length := by rw [h.blocks]; exact h.placed.running_lt hr
  have hrlevel := h.placed.current r hr
  set level := min (r.level + 1) (P.levels - 1) with hlevel
  have hpriority : (if r.level + 1 + 1 > minPriority then minPriority else r.level + 1 + 1) =
      level + 1 := by
    rw [hlevel, hlevels]
    unfold minPriority
    split <;> omega
  set block : ProcessControlBlock :=
    { next := none, processId := sp.processId, processState := .ready, processMemory := r.proc,
      priority := level + 1, jobTime := sp.jobTime, burstTime := 0, cpuTime := r.cpu } with hblock
  have hready : readyAndDecreasePriorityPcb r.proc s.pcbs = .ok (s.pcbs.set r.proc block) := by
    unfold readyAndDecreasePriorityPcb
    rw [modifyPcb_ok hget, hpriority]
  have hgot : getPcb (s.pcbs.set r.proc block) r.proc = .ok block :=
    getPcb_ok (List.getElem?_set_self hlt)
  obtain ⟨q, hq⟩ : ∃ q, a.queues[level]? = some q := by
    refine ⟨_, List.getElem?_eq_getElem ?_⟩
    rw [h.placed.levels, hlevels]
    unfold minPriority
    rw [hlevels] at hlevel
    unfold minPriority at hlevel
    omega
  obtain ⟨head, head', pcbs', hhead, happ, hqs, hcoreR, hcore, hlen⟩ :=
    h.leave hr block rfl (k := level + 1) (q := q.map Task.proc) (by simp [Tick.chains, hq])
  have hhead' : s.readyQs[level]? = some head := by simpa using hhead
  refine ⟨{ s with
      running := none
      readyQs := s.readyQs.set level head'
      pcbs := pcbs'
      trace := s.trace ++ [.decreasePriority r.proc] }, ?_, ?_⟩
  · have hqueue : getQueue s.readyQs level = .ok head := by simp only [getQueue, hhead']
    have hprio : block.priority = level + 1 := rfl
    simp only [requeueRunning, hready, hgot, hprio, hqueue, happ, bind, Except.bind]
  · have hchains : pushAt (level + 1) r.proc a.chains = (a.requeue P r).chains := by
      unfold Tick.chains Tick.requeue
      rw [pushAt_map]
      rfl
    rw [hchains] at hqs
    refine
      { placed := h.placed.requeue hr (by rw [hlevels]; decide)
        bound := h.bound
        time := h.time
        spi := h.spi
        blocks := by simp [Tick.requeue, hlen, h.blocks]
        running := rfl
        links := hqs
        runningNext := by simp [Tick.requeue]
        readyCore := ?_
        runningCore := by simp [Tick.requeue]
        terminatedCore := ?_
        allocated := h.allocated
        memory := ?_ }
    · intro x hx
      have hlt : level < a.queues.length := (List.getElem?_eq_some_iff.mp hq).1
      have hperm := pushAt_perm hlt ({ r with level := level, burst := 0 } : Task)
      rcases List.mem_cons.mp (hperm.mem_iff.mp hx) with rfl | hx
      · show coreOf pcbs' r.proc = _
        rw [hcoreR, blockOf, hsp]
        rfl
      · exact (hcore _ (a.mem_chains_of_queued hx)).trans (h.readyCore x hx)
    · intro x hx
      exact (hcore _ (a.mem_chains_of_terminated hx)).trans (h.terminatedCore x hx)
    · show replayed sps memsize (a.history ++ [.decreasePriority r.proc]) = _
      rw [replayed_snoc h.memory]
      rfl

end Comp30023.Interface
