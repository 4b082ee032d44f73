import Comp30023.Analysis.RunnerMemory

/-!
# No process is lost, duplicated or cross-linked

`pop_front_pcb_from_pcbs_queue` does not clear the `next` link of the block it pops, and
`append_pcb_to_pcbs_list` does not clear it when the list is empty. That the queues stay
apart nevertheless rests on `load_pcb` and `terminate_pcb`, which clear it between a pop
and an append; `Represents` carries this through a pass, and here it is read back as a
statement about the heap at the top of the loop.
-/

set_option autoImplicit false

namespace Comp30023.Analysis

open Comp30023.Library Comp30023.Model Comp30023.Interface

/-- What the heap of process control blocks looks like: the heads of the ready queues lead
to the blocks of `ready`, the head of the terminated list to those of `terminated`. -/
structure QueuesSound (sps : List ScheduledProcess) (s : RunnerState) (ready : List (List ℕ))
    (terminated : List ℕ) : Prop where
  readyChains : List.Forall₂ (Linked (nextOf s.pcbs)) s.readyQs ready
  terminatedChain : Linked (nextOf s.pcbs) s.terminatedList terminated
  acyclic : ∀ chain ∈ terminated :: ready, chain.Nodup
  disjoint : (terminated :: ready).Pairwise List.Disjoint
  /-- every admitted process is in exactly one place -/
  once : (s.running.toList ++ (terminated ++ ready.flatten)).Perm (List.range s.spi)
  admitted : s.spi ≤ sps.length ∧ ∀ i < s.spi, ∃ b sp, s.pcbs[i]? = some b ∧ sps[i]? = some sp ∧
    b.processId = sp.processId ∧ b.jobTime = sp.jobTime
  readyBlock : ∀ (k : ℕ) (chain : List ℕ), ready[k]? = some chain → ∀ i ∈ chain,
    ∃ b, s.pcbs[i]? = some b ∧ b.priority = k + 1 ∧ b.processState = .ready
  runningBlock : ∀ i, s.running = some i → ∃ b p, s.pcbs[i]? = some b ∧ b.next = none ∧
    b.processState = .running ∧ s.mem.find b.processMemory = some p ∧
    isProcessMemoryInDisk p = false
  terminatedBlock : ∀ i ∈ terminated, ∃ b p, s.pcbs[i]? = some b ∧
    b.processState = .terminated ∧ s.mem.find b.processMemory = some p ∧
    isProcessMemoryInDisk p = true ∧ b.cpuTime = max 1 b.jobTime

section Blocks

variable {P : Policy} {sps : List ScheduledProcess} {memsize : ℤ} {s : RunnerState} {a : Tick}

/-- INTERNAL: a block is the data of its task, whatever its link is. -/
theorem block_of_core {state : ProcessState} {e : Task} (hlt : e.proc < a.admitted)
    (h : Represents P sps memsize s a) (hcore : coreOf s.pcbs e.proc = blockOf sps state e) :
    ∃ b sp, s.pcbs[e.proc]? = some b ∧ sps[e.proc]? = some sp ∧ b.processState = state ∧
      b.processId = sp.processId ∧ b.jobTime = sp.jobTime ∧ b.priority = e.level + 1 ∧
      b.processMemory = e.proc ∧ b.cpuTime = e.cpu := by
  obtain ⟨sp, hsp⟩ := h.exists_sp hlt
  rw [blockOf, hsp, Option.map_some] at hcore
  exact ⟨_, sp, getElem?_of_coreOf hcore, hsp, rfl, rfl, rfl, rfl, rfl, rfl⟩

theorem terminated_block (h : Represents P sps memsize s a) {e : Task} (he : e ∈ a.terminated) :
    ∃ b sp, s.pcbs[e.proc]? = some b ∧ sps[e.proc]? = some sp ∧ b.processState = .terminated ∧
      b.processId = sp.processId ∧ b.jobTime = sp.jobTime ∧ b.priority = e.level + 1 ∧
      b.processMemory = e.proc ∧ b.cpuTime = e.cpu :=
  block_of_core (h.placed.chains_lt (Tick.mem_chains_of_terminated he)) h (h.terminatedCore e he)

theorem ready_block (h : Represents P sps memsize s a) {e : Task} (he : e ∈ a.queues.flatten) :
    ∃ b sp, s.pcbs[e.proc]? = some b ∧ sps[e.proc]? = some sp ∧ b.processState = .ready ∧
      b.processId = sp.processId ∧ b.jobTime = sp.jobTime ∧ b.priority = e.level + 1 ∧
      b.processMemory = e.proc ∧ b.cpuTime = e.cpu :=
  block_of_core (h.placed.chains_lt (Tick.mem_chains_of_queued he)) h (h.readyCore e he)

/-- INTERNAL: the block of an admitted process, wherever the process is. -/
theorem admitted_block (h : Represents P sps memsize s a) {i : ℕ} (hi : i < a.admitted) :
    ∃ b sp, s.pcbs[i]? = some b ∧ sps[i]? = some sp ∧ b.processId = sp.processId ∧
      b.jobTime = sp.jobTime := by
  have hmem : i ∈ a.procs := h.placed.procs.mem_iff.mpr (List.mem_range.mpr hi)
  unfold Tick.procs at hmem
  rcases List.mem_append.mp hmem with hmem | hmem
  · obtain ⟨e, he, rfl⟩ := List.mem_map.mp hmem
    obtain ⟨b, sp, hb, hsp, -, hid, hjob, -⟩ := ready_block h he
    exact ⟨b, sp, hb, hsp, hid, hjob⟩
  · rcases List.mem_append.mp hmem with hmem | hmem
    · obtain ⟨r, hr, rfl⟩ := List.mem_map.mp hmem
      obtain ⟨sp, hsp, hb⟩ := h.running_block (Option.mem_toList.mp hr)
      exact ⟨_, sp, hb, hsp, rfl, rfl⟩
    · obtain ⟨e, he, rfl⟩ := List.mem_map.mp hmem
      obtain ⟨b, sp, hb, hsp, -, hid, hjob, -⟩ := terminated_block h he
      exact ⟨b, sp, hb, hsp, hid, hjob⟩

end Blocks

/-- INTERNAL: a state that represents one of the scheduler has sound queues. -/
theorem queuesSound_of_represents {P : Policy} {sps : List ScheduledProcess} {memsize : ℤ}
    {s : RunnerState} {a : Tick} (hlevels : 0 < P.levels) (h : Represents P sps memsize s a)
    (hw : World.Reached P sps memsize ⟨a, s.mem, s.trace⟩)
    (hfit : ∀ sp ∈ sps, 1 ≤ sp.memorySize ∧ sp.memorySize ≤ memsize) :
    QueuesSound sps s (a.queues.map (List.map Task.proc)) (a.terminated.map Task.proc) := by
  have hpaced := (World.Reached.tick hw).paced hlevels
  obtain ⟨hresident, hgone⟩ := residency_of_reached hw hlevels hfit
  have hnodup : (a.terminated.map Task.proc :: a.queues.map (List.map Task.proc)).flatten.Nodup :=
    h.placed.chains_nodup
  obtain ⟨hchain, hpair⟩ := List.nodup_flatten.mp hnodup
  obtain ⟨hterm, hready⟩ := List.forall₂_cons.mp h.links
  refine ⟨hready, hterm, hchain, hpair, ?_, ⟨h.spi ▸ h.bound, fun i hi => ?_⟩, ?_, ?_, ?_⟩
  · have hperm := a.procs_perm_chains.symm.trans h.placed.procs
    rw [h.running, h.spi, Option.toList_map]
    exact hperm
  · exact admitted_block h (h.spi ▸ hi)
  · intro k chain hk i hi
    rw [List.getElem?_map, Option.map_eq_some_iff] at hk
    obtain ⟨queue, hqueue, rfl⟩ := hk
    obtain ⟨e, he, rfl⟩ := List.mem_map.mp hi
    have hflat : e ∈ a.queues.flatten :=
      List.mem_flatten.mpr ⟨queue, List.mem_of_getElem? hqueue, he⟩
    obtain ⟨b, -, hb, -, hstate, -, -, hprio, -⟩ := ready_block h hflat
    exact ⟨b, hb, by rw [hprio, (h.placed.queued k queue hqueue e he).1], hstate⟩
  · intro i hi
    rw [h.running, Option.map_eq_some_iff] at hi
    obtain ⟨r, hr, rfl⟩ := hi
    obtain ⟨sp, -, hb⟩ := h.running_block hr
    obtain ⟨p, hp, hres⟩ := hresident r hr
    exact ⟨_, p, hb, rfl, rfl, hp, hres⟩
  · intro i hi
    obtain ⟨e, he, rfl⟩ := List.mem_map.mp hi
    obtain ⟨b, sp, hb, hsp, hstate, -, hjob, -, hmem, hcpu⟩ := terminated_block h he
    obtain ⟨p, hp, hdisk⟩ := hgone e he
    refine ⟨b, p, hb, hstate, hmem ▸ hp, hdisk, ?_⟩
    rw [hcpu, hpaced.finished e he, demand_eq hsp, hjob]

/-- **The intrusive queues are sound.** In every state at the top of the loop of
`multi_scheduler_runner` the three ready queues and the terminated list are finite, acyclic
and pairwise disjoint chains, which with the running process hold every admitted process
exactly once, each in the state its place stands for.
SOURCE: process-scheduler.c:140-242, 268-294, 439-556 -/
theorem multi_queues_sound (q : Quanta) (sps : List ScheduledProcess) (memsize : ℤ)
    (hfit : ∀ sp ∈ sps, 1 ≤ sp.memorySize ∧ sp.memorySize ≤ memsize) (s : RunnerState)
    (hs : Reaches (multiSchedulerPass q sps memsize) (multiInitialState memsize) s) :
    ∃ (ready : List (List ℕ)) (terminated : List ℕ),
      ready.length = 3 ∧ QueuesSound sps s ready terminated := by
  obtain ⟨a, -, hrep, hw⟩ := (multi_runs q sps memsize).reaches hs
  refine ⟨_, _, ?_, queuesSound_of_represents (show 0 < minPriority by decide) hrep hw hfit⟩
  rw [List.length_map, hrep.placed.levels]
  rfl

/-- Two processes of which the first has just used up its first quantum.
SOURCE: process-scheduler.c:533-538 -/
theorem multi_queues_sound_two_steps :
    ∃ s, Reaches (multiSchedulerPass defaultQuanta [⟨0, 1, 40, 5⟩, ⟨1, 1, 70, 0⟩] 100)
      (multiInitialState 100) s ∧ s.readyQs = [some 1, some 0, none] ∧
      ∃ (ready : List (List ℕ)) (terminated : List ℕ), ready.length = 3 ∧
        QueuesSound [⟨0, 1, 40, 5⟩, ⟨1, 1, 70, 0⟩] s ready terminated := by
  have hrun : ∃ s, loop (multiSchedulerPass defaultQuanta [⟨0, 1, 40, 5⟩, ⟨1, 1, 70, 0⟩] 100) 2
      (multiInitialState 100) = .ok (.again s) ∧ s.readyQs = [some 1, some 0, none] :=
    ⟨_, rfl, rfl⟩
  obtain ⟨s, hs, hqs⟩ := hrun
  exact ⟨s, ⟨2, hs⟩, hqs, multi_queues_sound defaultQuanta _ 100 (by decide) s ⟨2, hs⟩⟩

end Comp30023.Analysis
