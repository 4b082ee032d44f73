import Comp30023.Interface.World
import Comp30023.Analysis.SwapIn

/-!
# Main memory along a run

`InMemory` says how main memory and the scheduler fit together in every world a runner
comes through: main memory is partitioned, it holds one process memory per admitted
process, in order and with the size and id from the file, the running process is in
main memory and the terminated ones are in disk.

From it follows that a runner never stops at a fault other than `noVictim`, and at that
one only if some process of the file does not fit into main memory (`fault_of_reached`).
-/

set_option autoImplicit false

namespace Comp30023.Analysis

open Comp30023.Library Comp30023.Model Comp30023.Interface

/-- Main memory is partitioned and fits what the scheduler is doing. -/
structure InMemory (sps : List ScheduledProcess) (M : ℤ) (w : World) : Prop where
  partition : Partition M w.mem
  pointers : (shape w.mem).map Prod.fst = List.range w.tick.admitted
  file : ∀ x ∈ shape w.mem, ∃ sp, sps[x.1]? = some sp ∧ x.2 = (sp.memorySize, sp.processId)
  running : ∀ r, w.tick.running = some r →
    ∃ p, w.mem.find r.proc = some p ∧ isProcessMemoryInDisk p = false
  terminated : ∀ e ∈ w.tick.terminated,
    ∃ p, w.mem.find e.proc = some p ∧ isProcessMemoryInDisk p = true ∧ p.size ≤ M

variable {P : Policy} {sps : List ScheduledProcess} {M : ℤ} {w v : World}

/-! ## The process memories of a run -/

/-- INTERNAL: an admitted process has a process memory with the size and id from the file. -/
theorem InMemory.find (h : InMemory sps M w) {proc : ℕ} (hproc : proc < w.tick.admitted) :
    ∃ p sp, w.mem.find proc = some p ∧ sps[proc]? = some sp ∧ p.ptr = proc ∧
      p.size = sp.memorySize ∧ p.processId = sp.processId := by
  have hmem : proc ∈ (shape w.mem).map Prod.fst := by
    rw [h.pointers]
    exact List.mem_range.mpr hproc
  obtain ⟨x, hx, rfl⟩ := List.mem_map.mp hmem
  obtain ⟨sp, hsp, heq⟩ := h.file x hx
  obtain ⟨p, hp, rfl⟩ := List.mem_map.mp hx
  simp only [Prod.mk.injEq] at heq
  exact ⟨p, sp, find_of_mem h.partition.pointers hp, hsp, rfl, heq.1, heq.2⟩

/-- INTERNAL: every process memory belongs to an admitted process. -/
theorem InMemory.ptr_lt (h : InMemory sps M w) {p : ProcessMemory} (hp : p ∈ w.mem.procMems) :
    p.ptr < w.tick.admitted := by
  have hmem : p.ptr ∈ (shape w.mem).map Prod.fst :=
    List.mem_map.mpr ⟨_, List.mem_map_of_mem hp, rfl⟩
  rw [h.pointers] at hmem
  exact List.mem_range.mp hmem

/-- INTERNAL: a process memory that was in disk and then kept or swapped out is in disk. -/
theorem KeptOrSwappedOut.inDisk {m m' : Memory} {q : ℕ} (h : KeptOrSwappedOut m m' q)
    {p : ProcessMemory} (hp : m.find q = some p) (hdisk : isProcessMemoryInDisk p = true) :
    ∃ p', m'.find q = some p' ∧ isProcessMemoryInDisk p' = true ∧ p'.size = p.size := by
  rcases h with h | h <;> rw [hp] at h
  · exact ⟨p, h, hdisk, rfl⟩
  · exact ⟨p.swappedOut, h, isProcessMemoryInDisk_swappedOut p, rfl⟩

/-! ## Loading and releasing -/

/-- The outcome of loading a process. -/
structure Loads (M : ℤ) (proc : ℕ) (m m' : Memory) : Prop where
  partition : Partition M m'
  shape : shape m' = shape m
  target : ∃ p, m'.find proc = some p ∧ isProcessMemoryInDisk p = false
  others : ∀ q, q ≠ proc → KeptOrSwappedOut m m' q

/-- Loading an admitted process brings it into main memory, unless it is larger than all of
main memory.
SOURCE: process-scheduler.c:182-200 -/
theorem InMemory.load (h : InMemory sps M w) {proc : ℕ} (hproc : proc < w.tick.admitted)
    (time : ℤ) :
    (loadProcessMemory proc proc time w.mem = .error .noVictim ∧
      (1 ≤ M → ∃ sp ∈ sps, M < sp.memorySize)) ∨
    ∃ m' events, loadProcessMemory proc proc time w.mem = .ok (m', events) ∧
      Loads M proc w.mem m' := by
  obtain ⟨p, sp, hfind, hsp, -, hsize, -⟩ := h.find hproc
  unfold loadProcessMemory
  simp only [hfind]
  by_cases hdisk : isProcessMemoryInDisk p = true
  · rw [if_pos hdisk]
    rcases swapInProcessMemory_spec time h.partition hfind hdisk with
      ⟨herr, hlarge⟩ | ⟨m', victims, hok, hsw⟩
    · left
      refine ⟨by rw [herr]; rfl, fun hM => ⟨sp, List.mem_of_getElem? hsp, ?_⟩⟩
      rw [← hsize]
      exact hlarge hM
    · right
      obtain ⟨p', startAddress, -, hfind', hres⟩ := hsw.target
      exact ⟨m', _, by rw [hok]; rfl, hsw.partition, hsw.shape, ⟨_, hfind', hres⟩, hsw.others⟩
  · rw [if_neg hdisk]
    right
    exact ⟨_, _, rfl, h.partition, rfl, ⟨p, hfind, by simpa using hdisk⟩, fun q _ => Or.inl rfl⟩

/-- Releasing the running process puts it in disk and leaves the others alone.
SOURCE: process-scheduler.c:226-242 -/
theorem InMemory.release (h : InMemory sps M w) {r : Task} (hr : w.tick.running = some r) :
    ∃ p, w.mem.find r.proc = some p ∧ isProcessMemoryInDisk p = false ∧
      releaseProcessMemory r.proc r.proc w.mem = .ok (w.mem.release p, [.release r.proc]) := by
  obtain ⟨p, hfind, hres⟩ := h.running r hr
  refine ⟨p, hfind, hres, ?_⟩
  simp [releaseProcessMemory, swapOutProcessMemoryByProcessMemory, hfind, hres, bind, Except.bind]

/-! ## Every step keeps the invariant -/

theorem inMemory_initial (hM : 1 ≤ M) (P : Policy) (sps : List ScheduledProcess) :
    InMemory sps M (World.initial P M) where
  partition := partition_newMemory hM
  pointers := rfl
  file := by simp [World.initial, shape, newMemory]
  running := by simp [World.initial, Tick.initial]
  terminated := by simp [World.initial, Tick.initial]

/-- INTERNAL: a new process memory is found under its pointer, and the others as before.
SOURCE: memory-management.c:221-247 -/
theorem find_addNew {m : Memory} {q : ℕ} {p : ProcessMemory} (h : m.find q = some p)
    (size processId : ℤ) :
    (addNewProcessMemoryToProcessMemoriesList size processId m).find q = some p := by
  unfold Memory.find at *
  simp only [addNewProcessMemoryToProcessMemoriesList, newProcessMemory,
    addProcessMemoryToProcessMemoriesList, List.find?_append, h, Option.some_or]

theorem InMemory.arrive (h : InMemory sps M w) (hsizes : ∀ sp ∈ sps, 1 ≤ sp.memorySize)
    (halloc : w.mem.allocated = w.tick.admitted) {sp : ScheduledProcess}
    (hsp : sps[w.tick.admitted]? = some sp) :
    InMemory sps M ⟨w.tick.admitOne,
      addNewProcessMemoryToProcessMemoriesList sp.memorySize sp.processId w.mem, w.trace⟩ := by
  have hshape : shape (addNewProcessMemoryToProcessMemoriesList sp.memorySize sp.processId w.mem) =
      shape w.mem ++ [(w.tick.admitted, sp.memorySize, sp.processId)] := by
    simp [shape, addNewProcessMemoryToProcessMemoriesList, newProcessMemory,
      addProcessMemoryToProcessMemoriesList, halloc]
  refine ⟨partition_addNew h.partition (hsizes sp (List.mem_of_getElem? hsp)) _, ?_, ?_, ?_, ?_⟩
  · simp only [hshape, List.map_append, h.pointers, List.map_cons, List.map_nil, Tick.admitOne,
      List.range_succ]
  · simp only [hshape]
    intro x hx
    rcases List.mem_append.mp hx with hx | hx
    · exact h.file x hx
    · rw [List.mem_singleton.mp hx]
      exact ⟨sp, hsp, rfl⟩
  · intro r hr
    obtain ⟨p, hfind, hres⟩ := h.running r hr
    exact ⟨p, find_addNew hfind _ _, hres⟩
  · intro e he
    obtain ⟨p, hfind, hp⟩ := h.terminated e he
    exact ⟨p, find_addNew hfind _ _, hp⟩

/-- INTERNAL: a loaded process is in main memory, and the terminated ones stay in disk. -/
theorem InMemory.dispatch (h : InMemory sps M w) {e : Task} {queues : List (List Task)}
    {mem : Memory} (hload : Loads M e.proc w.mem mem)
    (hne : ∀ t ∈ w.tick.terminated, t.proc ≠ e.proc) (trace : List Event) :
    InMemory sps M ⟨w.tick.take e queues, mem, trace⟩ where
  partition := hload.partition
  pointers := by
    rw [hload.shape]
    exact h.pointers
  file := by simpa only [hload.shape] using h.file
  running := by
    intro r hr
    simp only [Tick.take, Option.some.injEq] at hr
    subst hr
    exact hload.target
  terminated := by
    intro t ht
    obtain ⟨p, hfind, hdisk, hsize⟩ := h.terminated t ht
    obtain ⟨p', hfind', hdisk', hsize'⟩ := (hload.others t.proc (hne t ht)).inDisk hfind hdisk
    exact ⟨p', hfind', hdisk', hsize' ▸ hsize⟩

/-- INTERNAL: a terminated process is in disk. -/
theorem InMemory.terminate (h : InMemory sps M w) {r : Task} {p : ProcessMemory}
    (hfind : w.mem.find r.proc = some p)
    (hres : isProcessMemoryInDisk p = false) (trace : List Event) :
    InMemory sps M ⟨w.tick.execute.terminate r.ran, w.mem.release p, trace⟩ := by
  obtain ⟨hmem, hptr⟩ := mem_of_find hfind
  have hbounds := partition_resident_bounds h.partition (mem_residents.mpr ⟨hmem, hres⟩)
  have hgone : (w.mem.release p).find r.proc = some p.swappedOut := by
    rw [find_release, if_pos hptr.symm, hfind]
    rfl
  have hadm : (w.tick.execute.terminate r.ran).admitted = w.tick.admitted := by
    simp [Tick.terminate]
  have hterm : (w.tick.execute.terminate r.ran).terminated = w.tick.terminated ++ [r.ran] := by
    simp [Tick.terminate]
  refine ⟨partition_release h.partition hmem hres, ?_, ?_, by simp [Tick.terminate], ?_⟩
  · simpa only [shape_release, hadm] using h.pointers
  · simpa only [shape_release] using h.file
  · simp only [hterm]
    intro e he
    rcases List.mem_append.mp he with he | he
    · obtain ⟨p', hfind', hdisk', hsize'⟩ := h.terminated e he
      by_cases heq : e.proc = p.ptr
      · -- the block of an already terminated process would be the running one
        rw [find_release, if_pos heq, hfind']
        exact ⟨p'.swappedOut, rfl, isProcessMemoryInDisk_swappedOut p', hsize'⟩
      · exact ⟨p', by rw [find_release, if_neg heq, hfind'], hdisk', hsize'⟩
    · rw [List.mem_singleton.mp he]
      refine ⟨p.swappedOut, hgone, isProcessMemoryInDisk_swappedOut p, ?_⟩
      have : p.swappedOut.size = p.size := rfl
      unfold getProcessMemoryEndAddress at hbounds
      omega

/-- INTERNAL: nothing happens to main memory in a time step that only moves the clock. -/
theorem InMemory.of_tick (h : InMemory sps M w) {a : Tick} (hadm : a.admitted = w.tick.admitted)
    (hterm : a.terminated = w.tick.terminated)
    (hrun : ∀ r, a.running = some r → ∃ r', w.tick.running = some r' ∧ r.proc = r'.proc)
    (trace : List Event) : InMemory sps M ⟨a, w.mem, trace⟩ where
  partition := h.partition
  pointers := by simpa only [hadm] using h.pointers
  file := h.file
  running := fun r hr => by
    obtain ⟨r', hr', heq⟩ := hrun r hr
    simpa only [heq] using h.running r' hr'
  terminated := by simpa only [hterm] using h.terminated

/-- INTERNAL: the memory manager has handed out one pointer per admitted process. -/
theorem allocated_of_reached (h : World.Reached P sps M w) :
    w.mem.allocated = w.tick.admitted := by
  induction h with
  | refl => rfl
  | tail _ hstep ih =>
    cases hstep with
    | arrive =>
      simp [addNewProcessMemoryToProcessMemoriesList, newProcessMemory,
        addProcessMemoryToProcessMemoriesList, Tick.admitOne, ih]
    | dispatch _ _ _ _ hload => exact (loadProcessMemory_allocated hload).trans ih
    | terminate _ _ hrelease =>
      simpa [Tick.terminate] using (releaseProcessMemory_allocated hrelease).trans ih
    | requeue => simpa [Tick.requeue] using ih
    | keep => simpa using ih
    | idle => simpa using ih

/-- **Main memory along a run.** In every world a runner comes through main memory is
partitioned and fits what the scheduler is doing.
SOURCE: process-scheduler.c:378-424, 479-540 -/
theorem inMemory_of_reached (h : World.Reached P sps M w) (hM : 1 ≤ M)
    (hsizes : ∀ sp ∈ sps, 1 ≤ sp.memorySize) (hlevels : 0 < P.levels) : InMemory sps M w := by
  induction h with
  | refl => exact inMemory_initial hM P sps
  | @tail w v hw hstep ih =>
    have hplaced := (World.Reached.tick hw).placed hlevels
    cases hstep with
    | arrive hsp hdue => exact ih.arrive hsizes (allocated_of_reached hw) hsp
    | dispatch hwait hidle hpop hsp hload =>
      rcases ih.load (hplaced.popped_lt hpop) w.tick.time with ⟨herr, -⟩ | ⟨m', events', hok, hl⟩
      · rw [herr] at hload
        simp at hload
      · rw [hok, Except.ok.injEq, Prod.mk.injEq] at hload
        exact ih.dispatch (hload.1 ▸ hl) (hplaced.popped_ne hpop) _
    | terminate hr hfin hrelease =>
      obtain ⟨p, hfind, hres, hok⟩ := ih.release hr
      rw [hok, Except.ok.injEq, Prod.mk.injEq] at hrelease
      rw [← hrelease.1]
      exact ih.terminate hfind hres _
    | requeue =>
      exact ih.of_tick (by simp [Tick.requeue]) (by simp [Tick.requeue]) (by simp [Tick.requeue]) _
    | @keep r hr =>
      refine ih.of_tick (by simp) (by simp) (fun r' hr' => ⟨r, hr, ?_⟩) _
      rw [Tick.execute_running hr, Option.some.injEq] at hr'
      exact hr' ▸ rfl
    | idle _ _ hidle =>
      exact ih.of_tick (by simp) (by simp) (by simp [Tick.execute_idle hidle, hidle]) _

/-! ## Faults -/

/-- INTERNAL: the only fault a history can lead to is a missing process memory to swap out,
and it needs a process that does not fit.
SOURCE: memory-management.c:351-456 -/
theorem fault_of_reached {a : Tick} (h : Reached P sps a) (hM : 1 ≤ M)
    (hsizes : ∀ sp ∈ sps, 1 ≤ sp.memorySize) (hlevels : 0 < P.levels) {e : Fault}
    (hf : FaultsAt sps M a e) : e = .noVictim ∧ ∃ sp ∈ sps, M < sp.memorySize := by
  induction h with
  | refl => simp [FaultsAt, replayed, Tick.initial, replay] at hf
  | @tail a b ha hstep ih =>
    cases hrep : replayed sps M a.history with
    | error e' =>
      obtain ⟨more, hmore⟩ := hstep.history
      have hb := replayed_error_append hrep more
      rw [← hmore, hf, Except.error.injEq] at hb
      exact ih (hb ▸ hrep)
    | ok x =>
      have hw := World.reached_of_replayed ha hrep
      have hI := inMemory_of_reached hw hM hsizes hlevels
      have hplaced := Reached.placed ha hlevels
      -- only loading and releasing can fail, and releasing does not
      obtain ⟨m, trace⟩ := x
      unfold FaultsAt at hf
      cases hstep with
      | arrive hsp =>
        rw [Tick.admitOne, replayed_snoc hrep, Action.perform, hsp] at hf
        simp at hf
      | @dispatch t queues hwait hidle hpop =>
        obtain ⟨-, sp, -, hsp, -⟩ := hI.find (hplaced.popped_lt hpop)
        rw [Tick.take, replayed_snoc hrep, Action.perform, hsp] at hf
        rcases hI.load (hplaced.popped_lt hpop) a.time with ⟨herr, hlarge⟩ | ⟨m', events, hok, -⟩
        · simp only [herr, Except.error.injEq] at hf
          exact ⟨hf.symm, hlarge hM⟩
        · simp [hok] at hf
      | terminate hr =>
        obtain ⟨p, -, -, hok⟩ := hI.release hr
        rw [Tick.terminate_history hr, replayed_snoc (replayed_run hrep _ _), Action.perform, hok]
          at hf
        simp at hf
      | requeue hr =>
        rw [Tick.requeue_history hr, replayed_snoc (replayed_run hrep _ _), Action.perform] at hf
        simp at hf
      | keep hr =>
        rw [Tick.execute_history hr, replayed_run hrep] at hf
        simp at hf
      | idle _ _ hidle =>
        rw [Tick.execute_idle_history hidle, hrep] at hf
        simp at hf

/-! ## Runners whose file fits into main memory -/

/-- INTERNAL: with an empty file there is no first step. -/
theorem not_step_nil {b : Tick} : ¬ Step P [] (Tick.initial P) b := by
  intro hstep
  cases hstep with
  | arrive hsp => simp at hsp
  | dispatch _ _ hpop =>
    have hempty : popFirst (Tick.initial P).queues = none := by
      rw [popFirst_eq_none_iff_flatten]
      simp [Tick.initial]
    simp [hempty] at hpop
  | terminate hr => simp [Tick.initial] at hr
  | requeue hr => simp [Tick.initial] at hr
  | keep hr => simp [Tick.initial] at hr
  | idle hsp => simp at hsp

theorem reached_nil {a : Tick} (h : Reached P [] a) : a = Tick.initial P := by
  induction h with
  | refl => rfl
  | tail _ hstep ih => exact absurd (ih ▸ hstep) not_step_nil

theorem world_reached_nil (h : World.Reached P [] M w) : w = World.initial P M := by
  induction h with
  | refl => rfl
  | tail _ hstep ih =>
    subst ih
    exact absurd hstep.tick not_step_nil

/-- INTERNAL: main memory is not empty when some process fits. -/
theorem one_le_of_fit (hfit : ∀ sp ∈ sps, 1 ≤ sp.memorySize ∧ sp.memorySize ≤ M)
    (hne : sps ≠ []) : 1 ≤ M := by
  obtain ⟨sp, hsp⟩ := List.exists_mem_of_ne_nil sps hne
  have := hfit sp hsp
  omega

/-- INTERNAL: where the processes are in main memory, also when the file is empty. -/
theorem residency_of_reached (h : World.Reached P sps M w) (hlevels : 0 < P.levels)
    (hfit : ∀ sp ∈ sps, 1 ≤ sp.memorySize ∧ sp.memorySize ≤ M) :
    (∀ r, w.tick.running = some r →
      ∃ p, w.mem.find r.proc = some p ∧ isProcessMemoryInDisk p = false) ∧
    ∀ e ∈ w.tick.terminated, ∃ p, w.mem.find e.proc = some p ∧ isProcessMemoryInDisk p = true := by
  rcases eq_or_ne sps [] with rfl | hne
  · rw [world_reached_nil h]
    exact ⟨by simp [World.initial, Tick.initial], by simp [World.initial, Tick.initial]⟩
  · have hI := inMemory_of_reached h (one_le_of_fit hfit hne) (fun sp hsp => (hfit sp hsp).1)
      hlevels
    refine ⟨hI.running, fun e he => ?_⟩
    obtain ⟨p, hfind, hdisk, -⟩ := hI.terminated e he
    exact ⟨p, hfind, hdisk⟩

/-- A runner whose processes all fit into main memory leaves its loop, when the scheduler
stops.
SOURCE: process-scheduler.c:378-424, 479-540 -/
theorem exits_of_fit {body : RunnerState → Except Fault (Pass RunnerState)} {init : RunnerState}
    (h : Runs P sps M body init) (hlevels : 0 < P.levels)
    (hfit : ∀ sp ∈ sps, 1 ≤ sp.memorySize ∧ sp.memorySize ≤ M) :
    ∃ s a n, Exits body init s ∧ tickRun P sps n = .ok (.done a) ∧ Represents P sps M s a ∧
      World.Reached P sps M ⟨a, s.mem, s.trace⟩ := by
  rcases h.exits_or_faults hlevels with hexits | ⟨e, a, -, ha, hf⟩
  · exact hexits
  · exfalso
    rcases eq_or_ne sps [] with rfl | hne
    · rw [reached_nil ha] at hf
      simp [FaultsAt, replayed, Tick.initial, replay] at hf
    · obtain ⟨-, sp, hsp, hlarge⟩ := fault_of_reached ha (one_le_of_fit hfit hne)
        (fun sp hsp => (hfit sp hsp).1) hlevels hf
      have := (hfit sp hsp).2
      omega

end Comp30023.Analysis
