import Mathlib.Algebra.BigOperators.Fin
import Mathlib.Algebra.Order.BigOperators.Group.Finset
import Mathlib.Algebra.Order.BigOperators.Group.List
import Comp30023.Analysis.TheoremQueues

/-!
# With enough memory nothing is evicted

When the sizes of all processes of the file together fit into main memory, no process is
ever swapped out to make room, although first fit leaves holes wherever earlier processes
ended. What helps is the bottom of main memory: below every process in main memory there
is still room for all processes that have not been loaded yet (`Roomy.low`). These
addresses are free and adjacent, so they lie in one segment of the coalesced free list;
a process put into that segment is put at its top, and a process put anywhere else
does not touch it.
-/

set_option autoImplicit false

namespace Comp30023.Analysis

open Comp30023.Library Comp30023.Model Comp30023.Interface

/-- When a process was swapped in. -/
def swapInTimes (trace : List Event) (proc : ℕ) : List ℤ :=
  trace.filterMap fun
    | .swapIn pcb time _ => if pcb = proc then some time else none
    | _ => none

/-- When a process was dispatched. -/
def dispatchTimes (trace : List Event) (proc : ℕ) : List ℤ :=
  trace.filterMap fun
    | .status pcb line => if pcb = proc then some line.time else none
    | _ => none

/-- The memory size of a process of the file. -/
def memorySizeOf (sps : List ScheduledProcess) (proc : ℕ) : ℤ :=
  (sps[proc]?.map ScheduledProcess.memorySize).getD 0

/-- The memory that the processes need which were never swapped in so far. -/
def unloaded (sps : List ScheduledProcess) (trace : List Event) : ℤ :=
  ∑ proc ∈ Finset.range sps.length,
    if swapInTimes trace proc = [] then memorySizeOf sps proc else 0

variable {P : Policy} {sps : List ScheduledProcess} {M : ℤ} {w v : World}

/-! ## The bottom of main memory -/

/-- INTERNAL: if the `room` lowest addresses are below every process in main memory, a process
of at most this size fits somewhere, and every segment starts above them.
SOURCE: memory-management.c:360-397 -/
theorem occupy_of_low {m : Memory} (hP : Partition M m) {room size : ℤ}
    (hlow : ∀ p ∈ residents m.procMems, room ≤ getProcessMemoryEndAddress p) (hroom : room ≤ M)
    (hsize : 1 ≤ size) (hle : size ≤ room) :
    ∃ startAddress memSegs, occupyFreeMemorySegment size m.memSegs = some (startAddress, memSegs) ∧
      room ≤ startAddress := by
  have hfree : ∀ x, 0 < x → x ≤ room → 0 < depth (freeSpans m) x := by
    intro x hx hxr
    have hex := hP.exact x
    rw [if_pos ⟨hx, hxr.trans hroom⟩] at hex
    have hnone : ¬ 0 < depth (residentSpans m) x := by
      intro hpos
      obtain ⟨s, hs, hxs⟩ := depth_pos_iff.mp hpos
      obtain ⟨p, hp, rfl⟩ := List.mem_map.mp hs
      have hend := hlow p hp
      rw [Span.mem_points] at hxs
      have hbot : (processSpan p).bottom = getProcessMemoryEndAddress p := rfl
      omega
    omega
  obtain ⟨s, hs, hbot, htop⟩ := hP.coalesced.exists_span_of_run (by omega) hfree
  have hstart : ∀ t ∈ m.memSegs, room ≤ t.startAddress := by
    intro t ht
    have hbounds := partition_segment_bounds hP ht
    rcases hP.coalesced.separated hs (List.mem_map_of_mem (f := segmentSpan) ht) with
      heq | hsep | hsep
    · rw [heq] at htop
      exact htop
    · rw [segmentSpan_top] at hsep
      unfold getFreeMemorySegmentEndAddress at hbounds
      omega
    · rw [segmentSpan_bottom] at hsep
      unfold getFreeMemorySegmentEndAddress at hbounds hsep
      omega
  cases hocc : occupyFreeMemorySegment size m.memSegs with
  | none =>
    obtain ⟨t, ht, rfl⟩ := List.mem_map.mp hs
    have hsmall := occupyFreeMemorySegment_eq_none.mp hocc t ht
    rw [segmentSpan_bottom] at hbot
    rw [segmentSpan_top] at htop
    unfold getFreeMemorySegmentEndAddress at hbot
    omega
  | some taken =>
    obtain ⟨startAddress, memSegs⟩ := taken
    obtain ⟨l₁, t, l₂, hl, -, -, rfl, -⟩ := occupyFreeMemorySegment_first hocc
    exact ⟨_, memSegs, rfl, hstart t (by rw [hl]; simp)⟩

/-! ## What has not been loaded -/

theorem memorySizeOf_nonneg (hpos : ∀ sp ∈ sps, 1 ≤ sp.memorySize) (proc : ℕ) :
    0 ≤ memorySizeOf sps proc := by
  unfold memorySizeOf
  cases hsp : sps[proc]? with
  | none => exact le_rfl
  | some sp => exact le_trans zero_le_one (hpos sp (List.mem_of_getElem? hsp))

/-- INTERNAL: what a dispatch that loads its process adds to the times of loading. -/
theorem swapInTimes_load (trace : List Event) (proc : ℕ) (time : ℤ) (victims : List ℕ)
    (line : StatusLine) (i : ℕ) :
    swapInTimes (trace ++ ([Event.swapIn proc time victims] ++ [Event.status proc line])) i =
      if i = proc then swapInTimes trace i ++ [time] else swapInTimes trace i := by
  by_cases heq : i = proc
  · simp [swapInTimes, heq]
  · simp [swapInTimes, heq, Ne.symm heq]

/-- INTERNAL: what a dispatch adds to the times of dispatching. -/
theorem dispatchTimes_status (trace : List Event) {events : List Event} (proc : ℕ)
    (line : StatusLine) (i : ℕ) (hevents : dispatchTimes events i = []) :
    dispatchTimes (trace ++ (events ++ [Event.status proc line])) i =
      if i = proc then dispatchTimes trace i ++ [line.time] else dispatchTimes trace i := by
  unfold dispatchTimes at hevents ⊢
  rw [List.filterMap_append, List.filterMap_append, hevents]
  by_cases heq : i = proc
  · simp [heq]
  · simp [heq, Ne.symm heq]

/-- INTERNAL: loading a process for the first time takes its size away. -/
theorem unloaded_load {trace trace' : List Event} {proc : ℕ} (hproc : proc < sps.length)
    (hfirst : swapInTimes trace proc = []) (hself : swapInTimes trace' proc ≠ [])
    (hothers : ∀ i, i ≠ proc → swapInTimes trace' i = swapInTimes trace i) :
    unloaded sps trace' = unloaded sps trace - memorySizeOf sps proc := by
  have hmem := Finset.mem_range.mpr hproc
  unfold unloaded
  rw [← Finset.add_sum_erase _ _ hmem, ← Finset.add_sum_erase (Finset.range sps.length)
    (fun i => if swapInTimes trace i = [] then memorySizeOf sps i else 0) hmem, if_neg hself,
    if_pos hfirst, zero_add, add_sub_cancel_left]
  apply Finset.sum_congr rfl
  intro i hi
  rw [hothers i (Finset.ne_of_mem_erase hi)]

theorem le_unloaded (hpos : ∀ sp ∈ sps, 1 ≤ sp.memorySize) {trace : List Event} {proc : ℕ}
    (hproc : proc < sps.length) (hfirst : swapInTimes trace proc = []) :
    memorySizeOf sps proc ≤ unloaded sps trace := by
  have hle := Finset.single_le_sum
    (f := fun i => if swapInTimes trace i = [] then memorySizeOf sps i else 0)
    (fun i _ => by
      split_ifs
      · exact memorySizeOf_nonneg hpos i
      · exact le_rfl) (Finset.mem_range.mpr hproc)
  rw [if_pos hfirst] at hle
  exact hle

theorem sum_memorySizeOf (sps : List ScheduledProcess) :
    ∑ proc ∈ Finset.range sps.length, memorySizeOf sps proc =
      (sps.map ScheduledProcess.memorySize).sum := by
  rw [Finset.sum_range, ← Fin.sum_univ_fun_getElem]
  apply Finset.sum_congr rfl
  intro i _
  simp [memorySizeOf]

theorem unloaded_le (hpos : ∀ sp ∈ sps, 1 ≤ sp.memorySize) (trace : List Event) :
    unloaded sps trace ≤ (sps.map ScheduledProcess.memorySize).sum := by
  rw [← sum_memorySizeOf]
  apply Finset.sum_le_sum
  intro i _
  split_ifs
  · exact le_rfl
  · exact memorySizeOf_nonneg hpos i

/-! ## The invariant -/

/-- Below the processes in main memory there is room for those that were never loaded; every
process was swapped in at its first dispatch, and has stayed in main memory since unless
it is terminated. -/
structure Roomy (sps : List ScheduledProcess) (w : World) : Prop where
  low : ∀ p ∈ residents w.mem.procMems, unloaded sps w.trace ≤ getProcessMemoryEndAddress p
  once : ∀ proc, swapInTimes w.trace proc = (dispatchTimes w.trace proc).take 1
  kept : ∀ proc, swapInTimes w.trace proc ≠ [] → (∀ e ∈ w.tick.terminated, e.proc ≠ proc) →
    ∃ p, w.mem.find proc = some p ∧ isProcessMemoryInDisk p = false
  fresh : ∀ proc p, w.mem.find proc = some p → swapInTimes w.trace proc = [] →
    isProcessMemoryInDisk p = true
  ended : ∀ e ∈ w.tick.terminated, swapInTimes w.trace e.proc ≠ []
  evicted : ∀ pcb time victims, Event.swapIn pcb time victims ∈ w.trace → victims = []

/-- INTERNAL: events other than `swapIn` and `status` do not count. -/
theorem Roomy.of_trace (h : Roomy sps w) {trace : List Event}
    (hswap : ∀ proc, swapInTimes trace proc = swapInTimes w.trace proc)
    (hdispatch : ∀ proc, dispatchTimes trace proc = dispatchTimes w.trace proc)
    (hevict : ∀ pcb time victims, Event.swapIn pcb time victims ∈ trace →
      Event.swapIn pcb time victims ∈ w.trace) : Roomy sps ⟨w.tick, w.mem, trace⟩ := by
  have hunloaded : unloaded sps trace = unloaded sps w.trace := by
    unfold unloaded
    simp only [hswap]
  refine ⟨?_, ?_, ?_, ?_, ?_,
    fun pcb time victims hev => h.evicted pcb time victims (hevict _ _ _ hev)⟩
  · simpa only [hunloaded] using h.low
  · simpa only [hswap, hdispatch] using h.once
  · simpa only [hswap] using h.kept
  · simpa only [hswap] using h.fresh
  · simpa only [hswap] using h.ended

/-- INTERNAL: the running process was loaded. -/
theorem Roomy.running_loaded (h : Roomy sps w) (hI : InMemory sps M w) {r : Task}
    (hr : w.tick.running = some r) : swapInTimes w.trace r.proc ≠ [] := by
  intro hnever
  obtain ⟨p, hfind, hres⟩ := hI.running r hr
  have := h.fresh r.proc p hfind hnever
  simp [hres] at this

/-- INTERNAL: what loading does. A process that was loaded before is still there; any other one
fits in at once, and still leaves room for the rest.
SOURCE: process-scheduler.c:182-200 -/
theorem Roomy.load (h : Roomy sps w) (hI : InMemory sps M w)
    (hpos : ∀ sp ∈ sps, 1 ≤ sp.memorySize)
    (hsum : (sps.map ScheduledProcess.memorySize).sum ≤ M) {proc : ℕ}
    (hproc : proc < w.tick.admitted) (hlive : ∀ e ∈ w.tick.terminated, e.proc ≠ proc) (time : ℤ) :
    (swapInTimes w.trace proc ≠ [] ∧
      loadProcessMemory proc proc time w.mem = .ok (w.mem, [])) ∨
    (swapInTimes w.trace proc = [] ∧ ∃ p memSegs startAddress, w.mem.find proc = some p ∧
      isProcessMemoryInDisk p = true ∧ p.size = memorySizeOf sps proc ∧ proc < sps.length ∧
      unloaded sps w.trace ≤ startAddress ∧
      loadProcessMemory proc proc time w.mem =
        .ok ({ w.mem with memSegs := memSegs }.modify proc (.swappedIn startAddress time),
          [.swapIn proc time []])) := by
  by_cases hfirst : swapInTimes w.trace proc = []
  · right
    obtain ⟨p, sp, hfind, hsp, -, hsize, -⟩ := hI.find hproc
    have hdisk := h.fresh proc p hfind hfirst
    have hlt := (List.getElem?_eq_some_iff.mp hsp).1
    have hsize' : p.size = memorySizeOf sps proc := by simp [memorySizeOf, hsp, hsize]
    have hroom := le_unloaded hpos hlt hfirst
    have hone : 1 ≤ p.size := hsize ▸ hpos sp (List.mem_of_getElem? hsp)
    obtain ⟨startAddress, memSegs, hocc, hstart⟩ := occupy_of_low hI.partition h.low
      ((unloaded_le hpos _).trans hsum) hone (hsize' ▸ hroom)
    refine ⟨hfirst, p, memSegs, startAddress, hfind, hdisk, hsize', hlt, hstart, ?_⟩
    simp only [loadProcessMemory, hfind, hdisk, if_true, swapInProcessMemory_fit hfind hdisk hocc,
      bind, Except.bind]
  · left
    obtain ⟨p, hfind, hres⟩ := h.kept proc hfirst hlive
    refine ⟨hfirst, ?_⟩
    simp [loadProcessMemory, hfind, hres]

/-- INTERNAL: a process that is loaded at the top of its segment leaves the room below to
those that were never loaded. -/
theorem Roomy.low_load (h : Roomy sps w) (hpos : ∀ sp ∈ sps, 1 ≤ sp.memorySize)
    {proc : ℕ} {p : ProcessMemory} {memSegs : List FreeMemorySegment} {startAddress time : ℤ}
    {trace : List Event} (hfind : w.mem.find proc = some p)
    (hsize : p.size = memorySizeOf sps proc) (hstart : unloaded sps w.trace ≤ startAddress)
    (hpointers : (w.mem.procMems.map ProcessMemory.ptr).Nodup)
    (hunloaded : unloaded sps trace = unloaded sps w.trace - memorySizeOf sps proc) :
    ∀ p' ∈ residents ({ w.mem with memSegs := memSegs }.modify proc
      (.swappedIn startAddress time)).procMems,
      unloaded sps trace ≤ getProcessMemoryEndAddress p' := by
  intro p' hp'
  have hnonneg := memorySizeOf_nonneg hpos proc
  rw [hunloaded]
  rcases residents_modify hp' with ⟨hp', -⟩ | ⟨p'', hp'', hptr, rfl⟩
  · linarith [h.low p' hp']
  · have heq := find_of_mem hpointers (show p'' ∈ w.mem.procMems from hp'')
    rw [hptr, hfind, Option.some.injEq] at heq
    subst heq
    simp only [getProcessMemoryEndAddress, ProcessMemory.swappedIn]
    linarith

/-- INTERNAL: the first dispatch of a process. -/
theorem Roomy.dispatch_first (h : Roomy sps w) {e : Task} {queues : List (List Task)}
    {p : ProcessMemory} {memSegs : List FreeMemorySegment} {startAddress : ℤ} {line : StatusLine}
    (hpos : ∀ sp ∈ sps, 1 ≤ sp.memorySize) (hfirst : swapInTimes w.trace e.proc = [])
    (hfind : w.mem.find e.proc = some p) (hsize : p.size = memorySizeOf sps e.proc)
    (hlt : e.proc < sps.length) (hstart : unloaded sps w.trace ≤ startAddress)
    (hres : isProcessMemoryInDisk (p.swappedIn startAddress w.tick.time) = false)
    (hpointers : (w.mem.procMems.map ProcessMemory.ptr).Nodup) (hline : line.time = w.tick.time) :
    Roomy sps ⟨w.tick.take e queues,
      { w.mem with memSegs := memSegs }.modify e.proc (.swappedIn startAddress w.tick.time),
      w.trace ++ ([Event.swapIn e.proc w.tick.time []] ++ [Event.status e.proc line])⟩ := by
  have hload := swapInTimes_load w.trace e.proc w.tick.time [] line
  have hself := (hload e.proc).trans (if_pos rfl)
  have hother := fun i (hne : i ≠ e.proc) => (hload i).trans (if_neg hne)
  have hunloaded := unloaded_load hlt hfirst (by rw [hself]; simp) hother
  refine ⟨h.low_load hpos hfind hsize hstart hpointers hunloaded, fun i => ?_,
    fun i hloaded hlive => ?_, fun i p' hp' hnever => ?_, fun t ht => ?_,
    fun pcb time victims hev => ?_⟩
  · dsimp only
    rw [hload, dispatchTimes_status _ _ _ _ rfl, h.once i]
    by_cases heq : i = e.proc
    · have hnone : dispatchTimes w.trace i = [] := by
        have honce := h.once i
        rw [heq, hfirst, eq_comm, List.take_eq_nil_iff] at honce
        simpa [heq] using honce
      simp [heq ▸ hnone, heq, hline]
    · rw [if_neg heq, if_neg heq]
  · simp only [find_swappedIn]
    by_cases heq : i = e.proc
    · rw [if_pos heq, heq, hfind]
      exact ⟨_, rfl, hres⟩
    · rw [if_neg heq]
      exact h.kept i (by rw [← hother i heq]; exact hloaded) hlive
  · simp only [find_swappedIn] at hp'
    have hne : i ≠ e.proc := by
      rintro rfl
      rw [hself] at hnever
      simp at hnever
    rw [if_neg hne] at hp'
    exact h.fresh i p' hp' (by rw [← hother i hne]; exact hnever)
  · by_cases heq : t.proc = e.proc
    · rw [heq, hself]
      simp
    · rw [hother _ heq]
      exact h.ended t ht
  · simp only [List.mem_append, List.mem_singleton, Event.swapIn.injEq, reduceCtorEq,
      or_false] at hev
    rcases hev with hev | ⟨-, -, hev⟩
    · exact h.evicted pcb time victims hev
    · exact hev

/-- INTERNAL: a further dispatch of a process that is still in main memory. -/
theorem Roomy.dispatch_again (h : Roomy sps w) {e : Task} {queues : List (List Task)}
    {line : StatusLine} (hloaded : swapInTimes w.trace e.proc ≠ []) :
    Roomy sps ⟨w.tick.take e queues, w.mem,
      w.trace ++ (([] : List Event) ++ [Event.status e.proc line])⟩ := by
  have hswap : ∀ i, swapInTimes (w.trace ++ ([] ++ [.status e.proc line])) i =
      swapInTimes w.trace i := fun i => by simp [swapInTimes]
  have hunloaded : unloaded sps (w.trace ++ ([] ++ [.status e.proc line])) =
      unloaded sps w.trace := by
    unfold unloaded
    simp only [hswap]
  refine ⟨?_, fun i => ?_, ?_, ?_, ?_, fun pcb time victims hev => ?_⟩
  · simpa only [hunloaded] using h.low
  · rw [hswap, h.once i, dispatchTimes_status _ _ _ _ rfl]
    split_ifs with heq
    · have hne : dispatchTimes w.trace i ≠ [] := by
        intro hnil
        rw [← heq, h.once, hnil] at hloaded
        simp at hloaded
      rw [List.take_append_of_le_length (List.length_pos_iff.mpr hne)]
    · rfl
  · intro i hi hlive
    rw [hswap] at hi
    exact h.kept i hi hlive
  · simpa only [hswap] using h.fresh
  · intro t ht
    rw [hswap]
    exact h.ended t ht
  · refine h.evicted pcb time victims ?_
    simpa using hev

/-- INTERNAL: a process that is terminated makes room. -/
theorem Roomy.terminate (h : Roomy sps w) (hI : InMemory sps M w) {r : Task}
    (hr : w.tick.running = some r) {p : ProcessMemory} (hfind : w.mem.find r.proc = some p) :
    Roomy sps ⟨w.tick.execute.terminate r.ran, w.mem.release p,
      w.trace ++ [Event.run r.proc w.tick.time] ++ [Event.release r.proc]⟩ := by
  have hptr := (mem_of_find hfind).2
  have hloaded := h.running_loaded hI hr
  have hterm : (w.tick.execute.terminate r.ran).terminated = w.tick.terminated ++ [r.ran] := by
    simp [Tick.terminate]
  have hrelease : Roomy sps ⟨w.tick.execute.terminate r.ran, w.mem.release p, w.trace⟩ := by
    refine ⟨fun p' hp' => ?_, h.once, fun i hi hlive => ?_, fun i p' hp' hnever => ?_,
      fun e he => ?_, h.evicted⟩
    · rcases residents_modify hp' with ⟨hp', -⟩ | ⟨p'', -, -, rfl⟩
      · exact h.low p' hp'
      · simp [mem_residents] at hp'
    · simp only [hterm] at hlive
      have hne : i ≠ r.proc := by
        intro heq
        exact hlive r.ran (by simp) heq.symm
      simp only [find_release, if_neg (hptr ▸ hne)]
      exact h.kept i hi fun e he => hlive e (List.mem_append_left _ he)
    · simp only [find_release] at hp'
      have hne : i ≠ r.proc := by
        rintro rfl
        exact hloaded hnever
      rw [if_neg (hptr ▸ hne)] at hp'
      exact h.fresh i p' hp' hnever
    · simp only [hterm] at he
      rcases List.mem_append.mp he with he | he
      · exact h.ended e he
      · rw [List.mem_singleton.mp he]
        exact hloaded
  refine hrelease.of_trace (fun i => ?_) (fun i => ?_) fun pcb time victims hev => ?_
  · simp [swapInTimes]
  · simp [dispatchTimes]
  · simpa using hev

theorem roomy_initial (P : Policy) (M : ℤ) : Roomy sps (World.initial P M) where
  low := by simp [World.initial, newMemory, residents]
  once := by simp [World.initial, swapInTimes, dispatchTimes]
  kept := by simp [World.initial, swapInTimes]
  fresh := by simp [World.initial, newMemory, Memory.find]
  ended := by simp [World.initial, Tick.initial]
  evicted := by simp [World.initial]

/-- INTERNAL: nothing happens to main memory in a time step that only moves the clock. -/
theorem Roomy.of_tick (h : Roomy sps w) {a : Tick} (hterm : a.terminated = w.tick.terminated) :
    Roomy sps ⟨a, w.mem, w.trace⟩ where
  low := h.low
  once := h.once
  kept := by simpa only [hterm] using h.kept
  fresh := h.fresh
  ended := by simpa only [hterm] using h.ended
  evicted := h.evicted

/-- INTERNAL: a new process memory is in disk and was never loaded. -/
theorem Roomy.arrive (h : Roomy sps w) {size processId : ℤ} :
    Roomy sps ⟨w.tick.admitOne, addNewProcessMemoryToProcessMemoriesList size processId w.mem,
      w.trace⟩ := by
  refine ⟨?_, h.once, fun i hi hlive => ?_, fun i p hp hnever => ?_, h.ended, h.evicted⟩
  · simpa [addNewProcessMemoryToProcessMemoriesList, newProcessMemory, residents,
      addProcessMemoryToProcessMemoriesList, isProcessMemoryInDisk] using h.low
  · obtain ⟨p, hfind, hres⟩ := h.kept i hi hlive
    exact ⟨p, find_addNew hfind _ _, hres⟩
  · cases hfind : w.mem.find i with
    | some p' =>
      have hsame := find_addNew hfind size processId
      rw [hsame, Option.some.injEq] at hp
      exact hp ▸ h.fresh i p' hfind hnever
    | none =>
      unfold Memory.find at hfind hp
      simp only [addNewProcessMemoryToProcessMemoriesList, newProcessMemory,
        addProcessMemoryToProcessMemoriesList, List.find?_append, hfind, Option.none_or] at hp
      have hmem := List.mem_of_find?_eq_some hp
      rw [List.mem_singleton.mp hmem]
      rfl

/-- One step keeps the invariant.
SOURCE: process-scheduler.c:479-540 -/
theorem Roomy.step (hstep : World.Step P sps M w v) (h : Roomy sps w) (hI : InMemory sps M w)
    (hplaced : w.tick.Placed P) (hI' : InMemory sps M v)
    (hpos : ∀ sp ∈ sps, 1 ≤ sp.memorySize)
    (hsum : (sps.map ScheduledProcess.memorySize).sum ≤ M) : Roomy sps v := by
  cases hstep with
  | arrive => exact h.arrive
  | @dispatch e queues sp mem events _ _ hpop hsp hload =>
    rcases h.load hI hpos hsum (hplaced.popped_lt hpop) (hplaced.popped_ne hpop) w.tick.time with
      ⟨hloaded, hok⟩ | ⟨hfirst, p, memSegs, startAddress, hfind, hdisk, hsize, hlt, hstart, hok⟩
    · rw [hok, Except.ok.injEq, Prod.mk.injEq] at hload
      obtain ⟨rfl, rfl⟩ := hload
      exact h.dispatch_again hloaded
    · rw [hok, Except.ok.injEq, Prod.mk.injEq] at hload
      obtain ⟨rfl, rfl⟩ := hload
      obtain ⟨p', hfind', hres⟩ := hI'.running _ rfl
      simp only [find_swappedIn, if_true, hfind, Option.map_some, Option.some.injEq] at hfind'
      subst hfind'
      exact h.dispatch_first hpos hfirst hfind hsize hlt hstart hres hI.partition.pointers rfl
  | terminate hr _ hrelease =>
    obtain ⟨p, hfind, hres, hok⟩ := hI.release hr
    rw [hok, Except.ok.injEq, Prod.mk.injEq] at hrelease
    obtain ⟨rfl, rfl⟩ := hrelease
    exact h.terminate hI hr hfind
  | @requeue r =>
    refine (h.of_tick (a := w.tick.execute.requeue P r.ran) (by simp [Tick.requeue])).of_trace
      (fun i => ?_) (fun i => ?_) fun pcb time victims hev => ?_
    · simp [swapInTimes]
    · simp [dispatchTimes]
    · simpa using hev
  | keep =>
    refine (h.of_tick (a := w.tick.execute) (by simp)).of_trace (fun i => ?_) (fun i => ?_)
      fun pcb time victims hev => ?_
    · simp [swapInTimes]
    · simp [dispatchTimes]
    · simpa using hev
  | idle => exact h.of_tick (by simp)

theorem roomy_of_reached (h : World.Reached P sps M w) (hlevels : 0 < P.levels) (hM : 1 ≤ M)
    (hpos : ∀ sp ∈ sps, 1 ≤ sp.memorySize)
    (hsum : (sps.map ScheduledProcess.memorySize).sum ≤ M) : Roomy sps w := by
  induction h with
  | refl => exact roomy_initial P M
  | @tail w v hw hstep ih =>
    have hv : World.Reached P sps M v := Relation.ReflTransGen.tail hw hstep
    exact ih.step hstep (inMemory_of_reached hw hM hpos hlevels)
      ((World.Reached.tick hw).placed hlevels) (inMemory_of_reached hv hM hpos hlevels) hpos hsum

/-! ## A process stays where it is until it terminates -/

/-- INTERNAL: a terminated process stays terminated. -/
theorem terminated_mono (h : World.Step P sps M w v) {e : Task} (he : e ∈ w.tick.terminated) :
    e ∈ v.tick.terminated := by
  cases h with
  | arrive => exact he
  | dispatch => exact he
  | terminate => simp [Tick.terminate, he]
  | requeue => simpa [Tick.requeue] using he
  | keep => simpa using he
  | idle => simpa using he

theorem stays_step (hstep : World.Step P sps M w v) (h : Roomy sps w) (hI : InMemory sps M w)
    (hplaced : w.tick.Placed P) (hpos : ∀ sp ∈ sps, 1 ≤ sp.memorySize)
    (hsum : (sps.map ScheduledProcess.memorySize).sum ≤ M) {i : ℕ} {p : ProcessMemory}
    (hfind : w.mem.find i = some p) (hres : isProcessMemoryInDisk p = false)
    (hlive : ∀ e ∈ v.tick.terminated, e.proc ≠ i) : v.mem.find i = some p := by
  cases hstep with
  | arrive => exact find_addNew hfind _ _
  | @dispatch e queues sp mem events _ _ hpop hsp hload =>
    rcases h.load hI hpos hsum (hplaced.popped_lt hpop) (hplaced.popped_ne hpop) w.tick.time with
      ⟨hloaded, hok⟩ | ⟨hfirst, p', memSegs, startAddress, hfind', hdisk, -, -, -, hok⟩
    · rw [hok, Except.ok.injEq, Prod.mk.injEq] at hload
      exact hload.1 ▸ hfind
    · rw [hok, Except.ok.injEq, Prod.mk.injEq] at hload
      rw [← hload.1]
      have hne : i ≠ e.proc := by
        rintro rfl
        rw [hfind, Option.some.injEq] at hfind'
        simp [← hfind', hres] at hdisk
      rw [find_swappedIn, if_neg hne, hfind]
  | @terminate r _ _ hr _ hrelease =>
    obtain ⟨p', hfind', -, hok⟩ := hI.release hr
    rw [hok, Except.ok.injEq, Prod.mk.injEq] at hrelease
    rw [← hrelease.1]
    have hne : r.proc ≠ i := hlive r.ran (by simp [Tick.terminate])
    rw [find_release, if_neg fun heq => hne ((mem_of_find hfind').2.symm.trans heq.symm), hfind]
  | requeue => exact hfind
  | keep => exact hfind
  | idle => exact hfind

theorem stays_of_steps (hw : World.Reached P sps M w)
    (hsteps : Relation.ReflTransGen (World.Step P sps M) w v) (hlevels : 0 < P.levels) (hM : 1 ≤ M)
    (hpos : ∀ sp ∈ sps, 1 ≤ sp.memorySize)
    (hsum : (sps.map ScheduledProcess.memorySize).sum ≤ M) {i : ℕ} {p : ProcessMemory}
    (hfind : w.mem.find i = some p) (hres : isProcessMemoryInDisk p = false)
    (hlive : ∀ e ∈ v.tick.terminated, e.proc ≠ i) : v.mem.find i = some p := by
  induction hsteps with
  | refl => exact hfind
  | @tail u v hwu hstep ih =>
    have hu : World.Reached P sps M u := Relation.ReflTransGen.trans hw hwu
    exact stays_step hstep (roomy_of_reached hu hlevels hM hpos hsum)
      (inMemory_of_reached hu hM hpos hlevels) ((World.Reached.tick hu).placed hlevels) hpos hsum
      (ih fun e he => hlive e (terminated_mono hstep he)) hres hlive

/-! ## The runner -/

/-- A process is terminated. -/
def IsTerminated (s : RunnerState) (proc : ℕ) : Prop :=
  ∃ b, s.pcbs[proc]? = some b ∧ b.processState = .terminated

/-- INTERNAL: the tasks on the terminated list are the terminated processes. -/
theorem not_terminated {s : RunnerState} {a : Tick} (h : Represents P sps M s a) {proc : ℕ}
    (hlive : ¬ IsTerminated s proc) : ∀ e ∈ a.terminated, e.proc ≠ proc := by
  rintro e he rfl
  obtain ⟨b, -, hb, -, hstate, -⟩ := terminated_block h he
  exact hlive ⟨b, hb, hstate⟩

/-- INTERNAL: sizes that fit together fit one by one. -/
theorem fit_of_sum (hpos : ∀ sp ∈ sps, 1 ≤ sp.memorySize)
    (hsum : (sps.map ScheduledProcess.memorySize).sum ≤ M) :
    ∀ sp ∈ sps, 1 ≤ sp.memorySize ∧ sp.memorySize ≤ M := by
  intro sp hsp
  refine ⟨hpos sp hsp, le_trans ?_ hsum⟩
  refine List.single_le_sum (fun x hx => ?_) _ (List.mem_map_of_mem hsp)
  obtain ⟨sp', hsp', rfl⟩ := List.mem_map.mp hx
  exact le_trans zero_le_one (hpos sp' hsp')

/-- INTERNAL: the invariant, also when the file is empty. -/
theorem roomy_of_sum (h : World.Reached P sps M w) (hlevels : 0 < P.levels)
    (hpos : ∀ sp ∈ sps, 1 ≤ sp.memorySize)
    (hsum : (sps.map ScheduledProcess.memorySize).sum ≤ M) : Roomy sps w := by
  rcases eq_or_ne sps [] with rfl | hne
  · rw [world_reached_nil h]
    exact roomy_initial P M
  · exact roomy_of_reached h hlevels (one_le_of_fit (fit_of_sum hpos hsum) hne) hpos hsum

/-- INTERNAL: two states of one run are joined by steps of the world. -/
theorem steps_of_loops {body : RunnerState → Except Fault (Pass RunnerState)}
    {init s t : RunnerState} (h : Runs P sps M body init) {n m : ℕ}
    (hs : loop body n init = .ok (.again s)) (ht : loop body (n + m) init = .ok (.again t)) :
    ∃ a b, Represents P sps M s a ∧ Represents P sps M t b ∧
      World.Reached P sps M ⟨a, s.mem, s.trace⟩ ∧
      Relation.ReflTransGen (World.Step P sps M) ⟨a, s.mem, s.trace⟩ ⟨b, t.mem, t.trace⟩ := by
  obtain ⟨p, hp, hmp⟩ := h n
  obtain ⟨r, hr, hmr⟩ := h (n + m)
  rw [hs] at hmp
  rw [ht] at hmr
  cases hmp with
  | @again _ a hrep =>
    cases hmr with
    | @again _ b hrep' =>
      refine ⟨a, b, hrep, hrep', World.reached_of_replayed (tickRun_reached hp) hrep.memory, ?_⟩
      refine World.steps_of_replayed ?_ hrep.memory hrep'.memory
      have hab : loop (pureBody (Tick.pass P sps)) m a = .ok (.again b) := by
        have hadd : loop (pureBody (Tick.pass P sps)) (n + m) (Tick.initial P) = _ :=
          loop_add n m (Tick.initial P)
        unfold tickRun at hp hr
        rw [hp, hr] at hadd
        exact hadd.symm
      exact loop_pass_steps hab

/-- **With enough memory nothing is evicted.** When the sizes of all processes of the file
together fit into main memory, `swap_out_process_memory` is never called: every process is
swapped in exactly once, at its first dispatch, and from then on it is in main memory, at
the same start address, until it terminates.
SOURCE: memory-management.c:351-403, process-scheduler.c:479-540 -/
theorem multi_never_evicts (q : Quanta) (sps : List ScheduledProcess) (memsize : ℤ)
    (hpos : ∀ sp ∈ sps, 1 ≤ sp.memorySize)
    (hsum : (sps.map ScheduledProcess.memorySize).sum ≤ memsize) :
    (∃ s, Exits (multiSchedulerPass q sps memsize) (multiInitialState memsize) s ∧
      (∀ pcb time victims, Event.swapIn pcb time victims ∈ s.trace → victims = []) ∧
      ∀ proc < sps.length, ∃ time, swapInTimes s.trace proc = [time] ∧
        (dispatchTimes s.trace proc).head? = some time) ∧
    (∀ s, Reaches (multiSchedulerPass q sps memsize) (multiInitialState memsize) s →
      (∀ pcb time victims, Event.swapIn pcb time victims ∈ s.trace → victims = []) ∧
      ∀ proc, swapInTimes s.trace proc = (dispatchTimes s.trace proc).take 1 ∧
        (swapInTimes s.trace proc ≠ [] → ¬ IsTerminated s proc →
          ∃ p, s.mem.find proc = some p ∧ isProcessMemoryInDisk p = false)) ∧
    ∀ n m s t, loop (multiSchedulerPass q sps memsize) n (multiInitialState memsize) =
        .ok (.again s) →
      loop (multiSchedulerPass q sps memsize) (n + m) (multiInitialState memsize) =
        .ok (.again t) →
      ∀ proc p, s.mem.find proc = some p → isProcessMemoryInDisk p = false →
        ¬ IsTerminated t proc →
        ∃ p', t.mem.find proc = some p' ∧ p'.startAddress = p.startAddress := by
  have hlevels : 0 < (multiPolicy q).levels := show 0 < minPriority by decide
  have hfit := fit_of_sum hpos hsum
  refine ⟨?_, fun s hs => ?_, fun n m s t hs ht proc p hfind hres hlive => ?_⟩
  · obtain ⟨s, a, n, hexits, hdone, hrep, hw⟩ :=
      exits_of_fit (multi_runs q sps memsize) hlevels hfit
    have hroomy := roomy_of_sum hw hlevels hpos hsum
    refine ⟨s, hexits, hroomy.evicted, fun proc hproc => ?_⟩
    obtain ⟨-, -, -, hterm⟩ := tickRun_done hdone hlevels
    obtain ⟨e, he, rfl⟩ := List.mem_map.mp (hterm.mem_iff.mpr (List.mem_range.mpr hproc))
    have hloaded : swapInTimes s.trace e.proc ≠ [] := hroomy.ended e he
    have honce : swapInTimes s.trace e.proc = (dispatchTimes s.trace e.proc).take 1 :=
      hroomy.once e.proc
    cases hd : dispatchTimes s.trace e.proc with
    | nil => simp [honce, hd] at hloaded
    | cons time times => exact ⟨time, by rw [honce, hd]; rfl, rfl⟩
  · obtain ⟨a, -, hrep, hw⟩ := (multi_runs q sps memsize).reaches hs
    have hroomy := roomy_of_sum hw hlevels hpos hsum
    refine ⟨hroomy.evicted, fun proc => ⟨hroomy.once proc, fun hloaded hlive => ?_⟩⟩
    exact hroomy.kept proc hloaded (not_terminated hrep hlive)
  · obtain ⟨a, b, hrep, hrep', hw, hsteps⟩ := steps_of_loops (multi_runs q sps memsize) hs ht
    have hne : sps ≠ [] := by
      rintro rfl
      have hinit : s.mem = newMemory memsize := congrArg World.mem (world_reached_nil hw)
      rw [hinit] at hfind
      simp [newMemory, Memory.find] at hfind
    exact ⟨p, stays_of_steps hw hsteps hlevels (one_le_of_fit hfit hne) hpos hsum hfind hres
      (not_terminated hrep' hlive), rfl⟩

/-- Three processes that fill main memory, one of which leaves a hole.
SOURCE: process-scheduler.c:479-540 -/
theorem multi_never_evicts_three :
    ∃ s, Exits (multiSchedulerPass defaultQuanta [⟨0, 1, 30, 1⟩, ⟨0, 2, 30, 9⟩, ⟨3, 3, 40, 3⟩] 100)
        (multiInitialState 100) s ∧
      (∀ pcb time victims, Event.swapIn pcb time victims ∈ s.trace → victims = []) ∧
      ∀ proc < 3, ∃ time, swapInTimes s.trace proc = [time] ∧
        (dispatchTimes s.trace proc).head? = some time :=
  (multi_never_evicts defaultQuanta [⟨0, 1, 30, 1⟩, ⟨0, 2, 30, 9⟩, ⟨3, 3, 40, 3⟩] 100 (by decide)
    (by decide)).1

end Comp30023.Analysis
