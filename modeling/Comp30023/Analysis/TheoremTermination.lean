import Comp30023.Analysis.TheoremQueues

/-!
# The runners terminate and give everything back

Every run of the scheduler ends (`tickRun_exits`) and a runner whose processes fit into
main memory follows it to the end (`exits_of_fit`). There all processes are terminated,
so all process memories are in disk, and a partitioned main memory without process
memories is a single segment.
-/

set_option autoImplicit false

namespace Comp30023.Analysis

open Comp30023.Library Comp30023.Model Comp30023.Interface

/-- The state of a runner that has done its work: every process of the file is on the
terminated list, exactly once and with the CPU time it needs, and main memory is as it was
at the start. -/
structure Finished (sps : List ScheduledProcess) (memsize : ℤ) (s : RunnerState)
    (terminated : List ℕ) : Prop where
  chain : Linked (nextOf s.pcbs) s.terminatedList terminated
  once : terminated.Perm (List.range sps.length)
  blocks : ∀ i ∈ terminated, ∃ b sp, s.pcbs[i]? = some b ∧ sps[i]? = some sp ∧
    b.processId = sp.processId ∧ b.processState = .terminated ∧ b.cpuTime = max 1 sp.jobTime
  running : s.running = none
  ready : ∀ head ∈ s.readyQs, head = none
  inDisk : ∀ p ∈ s.mem.procMems, isProcessMemoryInDisk p = true
  processes : s.mem.procMems.length = sps.length
  free : s.mem.memSegs = [⟨memsize, memsize⟩]

variable {P : Policy} {sps : List ScheduledProcess} {memsize : ℤ}

/-- INTERNAL: when all processes are terminated main memory is one free segment.
SOURCE: memory-management.c:50-161, 458-476 -/
theorem memory_given_back {w : World} (hw : World.Reached P sps memsize w)
    (hlevels : 0 < P.levels)
    (hfit : ∀ sp ∈ sps, 1 ≤ sp.memorySize ∧ sp.memorySize ≤ memsize)
    (hadm : w.tick.admitted = sps.length)
    (hterm : (w.tick.terminated.map Task.proc).Perm (List.range sps.length)) :
    (∀ p ∈ w.mem.procMems, isProcessMemoryInDisk p = true) ∧
      w.mem.procMems.length = sps.length ∧ w.mem.memSegs = [⟨memsize, memsize⟩] := by
  rcases eq_or_ne sps [] with rfl | hne
  · rw [world_reached_nil hw]
    exact ⟨by simp [World.initial, newMemory], rfl, rfl⟩
  · have hM := one_le_of_fit hfit hne
    have hI := inMemory_of_reached hw hM (fun sp hsp => (hfit sp hsp).1) hlevels
    have hdisk : ∀ p ∈ w.mem.procMems, isProcessMemoryInDisk p = true := by
      intro p hp
      have hlt := hI.ptr_lt hp
      rw [hadm] at hlt
      obtain ⟨e, he, heq⟩ := List.mem_map.mp (hterm.mem_iff.mpr (List.mem_range.mpr hlt))
      obtain ⟨p', hfind, hp', -⟩ := hI.terminated e he
      rw [heq, find_of_mem hI.partition.pointers hp, Option.some.injEq] at hfind
      exact hfind ▸ hp'
    refine ⟨hdisk, ?_, partition_memSegs_eq_single hM hI.partition ?_⟩
    · have hlen := congrArg List.length hI.pointers
      simpa [shape, hadm] using hlen
    · exact List.filter_eq_nil_iff.mpr fun p hp => by simp [hdisk p hp]

/-- INTERNAL: a runner whose processes fit leaves its loop with its work done. -/
theorem finished_of_runs {body : RunnerState → Except Fault (Pass RunnerState)}
    {init : RunnerState} (h : Runs P sps memsize body init) (hlevels : 0 < P.levels)
    (hfit : ∀ sp ∈ sps, 1 ≤ sp.memorySize ∧ sp.memorySize ≤ memsize) :
    ∃ s terminated, Exits body init s ∧ Finished sps memsize s terminated := by
  obtain ⟨s, a, n, hexits, hdone, hrep, hw⟩ := exits_of_fit h hlevels hfit
  obtain ⟨hidle, hqueues, hadm, hterm⟩ := tickRun_done hdone hlevels
  obtain ⟨hdisk, hlen, hfree⟩ := memory_given_back hw hlevels hfit hadm hterm
  obtain ⟨hchain, hready⟩ := List.forall₂_cons.mp hrep.links
  refine ⟨s, a.terminated.map Task.proc, hexits, hchain, hterm, fun i hi => ?_, ?_, ?_, hdisk, hlen,
    hfree⟩
  · obtain ⟨e, he, rfl⟩ := List.mem_map.mp hi
    obtain ⟨b, sp, hb, hsp, hstate, hid, -, -, -, hcpu⟩ := terminated_block hrep he
    refine ⟨b, sp, hb, hsp, hid, hstate, ?_⟩
    rw [hcpu, ((World.Reached.tick hw).paced hlevels).finished e he, demand_eq hsp]
  · rw [hrep.running, hidle]
    rfl
  · intro head hhead
    obtain ⟨k, hk⟩ := List.mem_iff_getElem?.mp hhead
    obtain ⟨hlen', hlinked⟩ := List.forall₂_iff_get.mp hready
    have hk' := (List.getElem?_eq_some_iff.mp hk).1
    have hl := hlinked k hk' (hlen' ▸ hk')
    have hnil : (a.queues.map (List.map Task.proc)).get ⟨k, hlen' ▸ hk'⟩ = [] := by
      have hmem := List.get_mem (a.queues.map (List.map Task.proc)) ⟨k, hlen' ▸ hk'⟩
      obtain ⟨queue, hq, heq⟩ := List.mem_map.mp hmem
      rw [← heq, List.flatten_eq_nil_iff.mp hqueues queue hq, List.map_nil]
    rw [hnil, linked_nil, List.get_eq_getElem, (List.getElem?_eq_some_iff.mp hk).2] at hl
    exact hl

/-- **Both simulators terminate and give everything back.** For every file whose processes fit
into main memory both loops are left, with every process terminated exactly once after the
CPU time it needs, empty ready queues, all process memories in disk and main memory free in
one piece.
SOURCE: process-scheduler.c:344-437, 439-556 -/
theorem runners_terminate (q : Quanta) (sps : List ScheduledProcess) (memsize : ℤ)
    (hfit : ∀ sp ∈ sps, 1 ≤ sp.memorySize ∧ sp.memorySize ≤ memsize) :
    (∃ s terminated, Exits (fcfsSchedulerPass sps memsize) (fcfsInitialState memsize) s ∧
      Finished sps memsize s terminated) ∧
    ∃ s terminated, Exits (multiSchedulerPass q sps memsize) (multiInitialState memsize) s ∧
      Finished sps memsize s terminated :=
  ⟨finished_of_runs (fcfs_runs sps memsize) (show 0 < 1 by decide) hfit,
    finished_of_runs (multi_runs q sps memsize) (show 0 < minPriority by decide) hfit⟩

/-- Two processes of which the second evicts the first.
SOURCE: process-scheduler.c:439-556 -/
theorem runners_terminate_two :
    (∃ s terminated, Exits (fcfsSchedulerPass [⟨-2, 7, 60, 3⟩, ⟨4, 7, 50, 0⟩] 100)
      (fcfsInitialState 100) s ∧ Finished [⟨-2, 7, 60, 3⟩, ⟨4, 7, 50, 0⟩] 100 s terminated) ∧
    ∃ s terminated, Exits (multiSchedulerPass defaultQuanta [⟨-2, 7, 60, 3⟩, ⟨4, 7, 50, 0⟩] 100)
      (multiInitialState 100) s ∧ Finished [⟨-2, 7, 60, 3⟩, ⟨4, 7, 50, 0⟩] 100 s terminated :=
  runners_terminate defaultQuanta _ 100 (by decide)

end Comp30023.Analysis
