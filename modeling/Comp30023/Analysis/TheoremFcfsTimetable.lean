import Mathlib.Algebra.Order.Floor.Ring
import Mathlib.Data.Rat.Floor
import Mathlib.Tactic.FieldSimp
import Comp30023.Interface.RunnerMoments
import Comp30023.Analysis.FcfsTimetable
import Comp30023.Analysis.TheoremDegeneration

/-!
# What first come, first served prints

The status lines of `fcfs_scheduler_runner` in closed form: one per process of the file, in
the order of the file and at the time of its turn. Main memory is free in one piece whenever
a process is loaded, so every process lies at the top of it and nothing is swapped out.
-/

set_option autoImplicit false

namespace Comp30023.Analysis

open Comp30023.Library Comp30023.Model Comp30023.Interface

/-- The status line of the process with the number `i` of the file. -/
def fcfsLine (sps : List ScheduledProcess) (memsize : ℤ) (i : ℕ) (sp : ScheduledProcess) :
    StatusLine :=
  { time := turn sps i
    processId := sp.processId
    numprocesses := 1
    numholes := if sp.memorySize = memsize then 0 else 1
    memusage := ⌈(100 * sp.memorySize : ℚ) / memsize⌉ }

variable {sps : List ScheduledProcess} {M : ℤ} {w : World}

/-! ## The numbers of a status line -/

/-- INTERNAL: the printed memory usage is the percentage, rounded up.
SOURCE: process-scheduler.c:253-256 -/
theorem memUsageProportion_eq_ceil {size : ℤ} (hsize : 0 ≤ size) (hM : 1 ≤ M) :
    memUsageProportion size M = ⌈(100 * size : ℚ) / M⌉ := by
  have hpos : (0 : ℚ) < M := by exact_mod_cast hM
  have hdiv : (100 * size).tdiv M = 100 * size / M := Int.tdiv_eq_ediv_of_nonneg (by omega)
  have hmod : (100 * size).tmod M = 100 * size % M := Int.tmod_eq_emod_of_nonneg (by omega)
  have hsplit := Int.mul_ediv_add_emod (100 * size) M
  have hlow := Int.emod_nonneg (100 * size) (by omega : M ≠ 0)
  have hhigh := Int.emod_lt_of_pos (100 * size) (by omega : 0 < M)
  have hbounds : (memUsageProportion size M - 1) * M < 100 * size ∧
      100 * size ≤ memUsageProportion size M * M := by
    unfold memUsageProportion
    rw [hdiv, hmod]
    by_cases hzero : 100 * size % M = 0
    · rw [if_neg (not_not.mpr hzero)]
      constructor <;> nlinarith
    · rw [if_pos hzero]
      have hlow' : 1 ≤ 100 * size % M := by omega
      constructor <;> nlinarith
  symm
  rw [Int.ceil_eq_iff, lt_div_iff₀ hpos, div_le_iff₀ hpos]
  exact ⟨by exact_mod_cast hbounds.1, by exact_mod_cast hbounds.2⟩

/-- INTERNAL: the status line of a process that has main memory to itself.
SOURCE: process-scheduler.c:249-266 -/
theorem status_alone {mem : Memory} {p : ProcessMemory} {sp : ScheduledProcess} (hM : 1 ≤ M)
    (hsize : 1 ≤ sp.memorySize) (hp : p.size = sp.memorySize)
    (hres : residents mem.procMems = [p]) (hsegs : mem.memSegs = holesBelow M sp.memorySize)
    {i : ℕ} {time : ℤ} (htime : time = turn sps i) :
    printSimulationStatus time i sp.processId mem M = .status i (fcfsLine sps M i sp) := by
  have hcount : getProcessMemoriesListNotInDiskCount mem.procMems = 1 := by
    show ((residents mem.procMems).length : ℤ) = 1
    rw [hres]
    rfl
  have hused : getProcessMemoriesListNotInDiskSize mem.procMems = sp.memorySize := by
    show ((residents mem.procMems).map ProcessMemory.size).sum = sp.memorySize
    rw [hres, List.map_singleton, List.sum_singleton, hp]
  have hholes : getFreeMemorySegmentsListCount mem.memSegs =
      if sp.memorySize = M then 0 else 1 := by
    rw [hsegs, getFreeMemorySegmentsListCount, holesBelow]
    split_ifs <;> rfl
  unfold printSimulationStatus fcfsLine
  rw [hcount, hused, hholes, memUsageProportion_eq_ceil (by omega) hM, htime]

/-! ## Along a run -/

/-- The status lines so far, and where the process memories lie that are in main memory. -/
structure Printed (sps : List ScheduledProcess) (M : ℤ) (w : World) : Prop where
  lines : statusLines w.trace =
    (sps.take (dispatches w.tick.history).length).mapIdx (fcfsLine sps M)
  top : ∀ p ∈ residents w.mem.procMems, p.startAddress = M

/-- INTERNAL: events that print nothing. -/
theorem statusLines_append {trace events : List Event} (h : statusLines events = []) :
    statusLines (trace ++ events) = statusLines trace := by
  unfold statusLines at h ⊢
  rw [List.filterMap_append, h, List.append_nil]

/-- INTERNAL: a process memory that is loaded into an empty main memory is alone there. -/
theorem residents_load {m : Memory} {p : ProcessMemory} (hM : 1 ≤ M)
    (hempty : residents m.procMems = []) (hptr : (m.procMems.map ProcessMemory.ptr).Nodup)
    (hp : p ∈ m.procMems) (memSegs : List FreeMemorySegment) (time : ℤ) :
    residents ({ m with memSegs := memSegs }.modify p.ptr (.swappedIn M time)).procMems =
      [p.swappedIn M time] := by
  obtain ⟨l₁, l₂, hl⟩ := List.append_of_mem hp
  have hresident : isProcessMemoryInDisk (p.swappedIn M time) = false := by
    simp only [isProcessMemoryInDisk, ProcessMemory.swappedIn, inDisk, beq_eq_false_iff_ne]
    omega
  rw [hl, residents_append] at hempty
  obtain ⟨h₁, h₂⟩ := List.append_eq_nil_iff.mp hempty
  have h₂' : residents l₂ = [] := by
    rw [show p :: l₂ = [p] ++ l₂ from rfl, residents_append] at h₂
    exact (List.append_eq_nil_iff.mp h₂).2
  rw [modify_split (m := { m with memSegs := memSegs }) hl hptr, residents_append, h₁,
    residents_cons_resident hresident, h₂', List.nil_append]

/-- INTERNAL: a dispatch prints the line of the next process of the file.
SOURCE: process-scheduler.c:391-395 -/
theorem Printed.dispatch (h : Printed sps M w) (hw : World.Reached fcfsPolicy sps M w) (hM : 1 ≤ M)
    (hfit : ∀ sp ∈ sps, 1 ≤ sp.memorySize ∧ sp.memorySize ≤ M) (hidle : w.tick.running = none)
    {e : Task} {queues : List (List Task)} (hpop : popFirst w.tick.queues = some (e, queues))
    {sp : ScheduledProcess} (hsp : sps[e.proc]? = some sp) {mem : Memory} {events : List Event}
    (hload : loadProcessMemory e.proc e.proc w.tick.time w.mem = .ok (mem, events)) :
    Printed sps M ⟨w.tick.take e queues, mem, w.trace ++
      (events ++ [printSimulationStatus w.tick.time e.proc sp.processId mem M])⟩ := by
  have hlevels : 0 < fcfsPolicy.levels := show 0 < 1 by decide
  have hreached := World.Reached.tick hw
  have hI := inMemory_of_reached hw hM (fun sp hsp => (hfit sp hsp).1) hlevels
  have hempty : residents w.mem.procMems = [] := by
    apply List.eq_nil_iff_forall_not_mem.mpr
    intro p hp
    obtain ⟨r, hr, -⟩ := (alone_of_reached hw hM hfit).resident p hp
    simp [hidle] at hr
  obtain ⟨d, hd⟩ := timetable_of_reached hreached
  obtain ⟨hproc, htime, hnext⟩ := hd.take (hreached.paced hlevels) hidle hpop
  obtain ⟨p, sp', hfind, hsp', hsize, hok⟩ :=
    load_alone hI hM hfit hempty ((hreached.placed hlevels).popped_lt hpop) w.tick.time
  rw [hsp, Option.some.injEq] at hsp'
  subst hsp'
  obtain ⟨hmem, hptr⟩ := mem_of_find hfind
  rw [hok, Except.ok.injEq, Prod.mk.injEq] at hload
  obtain ⟨rfl, rfl⟩ := hload
  have hres := residents_load hM hempty hI.partition.pointers hmem (holesBelow M sp.memorySize)
    w.tick.time
  rw [hptr] at hres
  rw [status_alone hM (hfit sp (List.mem_of_getElem? hsp)).1 (p := p.swappedIn M w.tick.time) hsize
    hres rfl (hproc ▸ htime)]
  refine ⟨?_, fun q hq => ?_⟩
  · have hlines := h.lines
    rw [hd.turns, List.length_map, List.length_range] at hlines
    have hlen : (sps.take d).length = d := by
      have := (List.getElem?_eq_some_iff.mp (hproc ▸ hsp)).1
      rw [List.length_take]
      omega
    rw [hnext.turns, List.length_map, List.length_range, List.take_add_one, ← hproc, hsp,
      Option.toList_some, List.mapIdx_append, hproc, hlen]
    simp only [statusLines] at hlines ⊢
    simp [hlines]
  · rw [hres, List.mem_singleton] at hq
    rw [hq]
    rfl

/-- INTERNAL: a runner that goes on keeps to the closed form.
SOURCE: process-scheduler.c:378-424 -/
theorem printed_of_reached (h : World.Reached fcfsPolicy sps M w) (hM : 1 ≤ M)
    (hfit : ∀ sp ∈ sps, 1 ≤ sp.memorySize ∧ sp.memorySize ≤ M) : Printed sps M w := by
  induction h with
  | refl => exact ⟨rfl, by simp [World.initial, newMemory, residents]⟩
  | @tail w v hw hstep ih =>
    cases hstep with
    | arrive =>
      refine ⟨by simpa [Tick.admitOne, dispatches] using ih.lines, ?_⟩
      simpa [addNewProcessMemoryToProcessMemoriesList, newProcessMemory, residents,
        addProcessMemoryToProcessMemoriesList, isProcessMemoryInDisk] using ih.top
    | dispatch _ hidle hpop hsp hload => exact ih.dispatch hw hM hfit hidle hpop hsp hload
    | @terminate r _ _ hr _ hrelease =>
      have hI := inMemory_of_reached hw hM (fun sp hsp => (hfit sp hsp).1) (show 0 < 1 by decide)
      obtain ⟨p, hfind, -, hok⟩ := hI.release hr
      rw [hok, Except.ok.injEq, Prod.mk.injEq] at hrelease
      obtain ⟨rfl, rfl⟩ := hrelease
      refine ⟨?_, fun q hq => ?_⟩
      · rw [Tick.terminate_history hr, statusLines_append rfl, statusLines_append rfl, ih.lines]
        simp [dispatches]
      · rcases residents_modify hq with ⟨hq', -⟩ | ⟨q', -, -, rfl⟩
        · exact ih.top q hq'
        · simp [mem_residents] at hq
    | requeue _ _ hquantum => simp [fcfsPolicy] at hquantum
    | keep hr =>
      refine ⟨?_, ih.top⟩
      rw [Tick.execute_history hr, statusLines_append rfl, ih.lines]
      simp [dispatches]
    | idle _ _ hidle =>
      refine ⟨?_, ih.top⟩
      rw [Tick.execute_idle_history hidle]
      exact ih.lines

/-! ## The runner -/

/-- INTERNAL: the state in which a pass of the runner has loaded a process was reached.
SOURCE: process-scheduler.c:380-403 -/
theorem reached_of_loaded {top loaded : RunnerState}
    (htop : Reaches (fcfsSchedulerPass sps M) (fcfsInitialState M) top)
    (hload : (checkScheduledProcesses sps top >>= fcfsLoadNext sps M) = .ok (.again loaded)) :
    ∃ b, Represents fcfsPolicy sps M loaded b ∧
      World.Reached fcfsPolicy sps M ⟨b, loaded.mem, loaded.trace⟩ := by
  obtain ⟨s, hcheck, hnext⟩ := bind_eq_ok hload
  have hloading : Runner.fcfs.Loading sps M s loaded := ⟨⟨top, htop, hcheck⟩, hnext⟩
  obtain ⟨a, b, -, hworld, -⟩ := hloading.world
  exact ⟨b, hworld⟩

/-- INTERNAL: the process that a pass runs is alone in main memory, at the top of it. -/
theorem placed_of_loaded (hfit : ∀ sp ∈ sps, 1 ≤ sp.memorySize ∧ sp.memorySize ≤ M)
    {top loaded : RunnerState}
    (htop : Reaches (fcfsSchedulerPass sps M) (fcfsInitialState M) top)
    (hload : (checkScheduledProcesses sps top >>= fcfsLoadNext sps M) = .ok (.again loaded))
    {pcb : ℕ} (hpcb : loaded.running = some pcb) :
    ∃ b p, loaded.pcbs[pcb]? = some b ∧ loaded.mem.find b.processMemory = some p ∧
      p.startAddress = M ∧ ∀ q ∈ loaded.mem.procMems, isProcessMemoryInDisk q = false → q = p := by
  obtain ⟨a, hrep, hw⟩ := reached_of_loaded htop hload
  rw [hrep.running, Option.map_eq_some_iff] at hpcb
  obtain ⟨r, hr, rfl⟩ := hpcb
  obtain ⟨sp, hsp, hblock⟩ := hrep.running_block hr
  have hM := one_le_of_fit hfit (List.ne_nil_of_mem (List.mem_of_getElem? hsp))
  have hI := inMemory_of_reached hw hM (fun sp hsp => (hfit sp hsp).1) (show 0 < 1 by decide)
  obtain ⟨p, hfind, hres⟩ := hI.running r hr
  have hresident := mem_residents.mpr ⟨(mem_of_find hfind).1, hres⟩
  refine ⟨_, p, hblock, hfind, (printed_of_reached hw hM hfit).top p hresident, fun q hq hqres => ?_⟩
  obtain ⟨r', hr', hptr⟩ :=
    (alone_of_reached hw hM hfit).resident q (mem_residents.mpr ⟨hq, hqres⟩)
  have hfindq := find_of_mem hI.partition.pointers hq
  rw [← hptr, Option.some.inj (hr'.symm.trans hr), hfind, Option.some.injEq] at hfindq
  exact hfindq.symm

/-- **First come, first served in closed form.** For every file whose processes fit into main
memory, `fcfs_scheduler_runner` prints one status line per process, in the order of the file:
each gets the CPU when the one before it is done and it has become available itself, alone in
main memory. The loop is left when the last one is done. Nothing is ever swapped out to make
room, and in every pass the process that runs lies at the top of main memory.
SOURCE: process-scheduler.c:344-437 -/
theorem fcfs_closed_form (sps : List ScheduledProcess) (memsize : ℤ)
    (hfit : ∀ sp ∈ sps, 1 ≤ sp.memorySize ∧ sp.memorySize ≤ memsize) :
    (∃ s, Exits (fcfsSchedulerPass sps memsize) (fcfsInitialState memsize) s ∧
      printed s = (sps.mapIdx (fcfsLine sps memsize)).map .status
        ++ [.finished (completion sps sps.length)] ∧
      ∀ pcb time victims, Event.swapIn pcb time victims ∈ s.trace → victims = []) ∧
    ∀ top loaded pcb, Reaches (fcfsSchedulerPass sps memsize) (fcfsInitialState memsize) top →
      (checkScheduledProcesses sps top >>= fcfsLoadNext sps memsize) = .ok (.again loaded) →
      loaded.running = some pcb →
      ∃ b p, loaded.pcbs[pcb]? = some b ∧ loaded.mem.find b.processMemory = some p ∧
        p.startAddress = memsize ∧
        ∀ q ∈ loaded.mem.procMems, isProcessMemoryInDisk q = false → q = p := by
  refine ⟨?_, fun top loaded pcb htop hload hpcb => placed_of_loaded hfit htop hload hpcb⟩
  obtain ⟨s, a, n, hexits, hdone, hrep, hw⟩ :=
    exits_of_fit (fcfs_runs sps memsize) (show 0 < 1 by decide) hfit
  obtain ⟨hidle, hqueues, hadm, -⟩ := tickRun_done hdone (show 0 < 1 by decide)
  obtain ⟨d, hd⟩ := timetable_of_reached (World.Reached.tick hw)
  obtain ⟨hlast, htime⟩ := hd.finished hidle hqueues hadm
  have hlines : statusLines s.trace = sps.mapIdx (fcfsLine sps memsize) ∧
      ∀ pcb time victims, Event.swapIn pcb time victims ∈ s.trace → victims = [] := by
    rcases eq_or_ne sps [] with rfl | hne
    · have hnil : s.trace = [] := congrArg World.trace (world_reached_nil hw)
      rw [hnil]
      exact ⟨rfl, by simp⟩
    · have hM := one_le_of_fit hfit hne
      refine ⟨?_, (alone_of_reached hw hM hfit).evicted⟩
      have hprinted := (printed_of_reached hw hM hfit).lines
      rw [hd.turns, List.length_map, List.length_range, hlast, List.take_length] at hprinted
      exact hprinted
  refine ⟨s, hexits, ?_, hlines.2⟩
  rw [printed, hlines.1, hrep.time, htime]

/-- A process that is due before the first one but waits for it, and one that is waited for.
SOURCE: process-scheduler.c:344-437 -/
theorem fcfs_closed_form_three :
    ∃ s, Exits (fcfsSchedulerPass [⟨3, 1, 40, 5⟩, ⟨0, 2, 100, -1⟩, ⟨20, 3, 1, 2⟩] 100)
        (fcfsInitialState 100) s ∧
      printed s = [.status ⟨3, 1, 1, 1, 40⟩, .status ⟨8, 2, 1, 0, 100⟩, .status ⟨20, 3, 1, 1, 1⟩,
        .finished 22] := by
  obtain ⟨⟨s, hexits, hprinted, -⟩, -⟩ :=
    fcfs_closed_form [⟨3, 1, 40, 5⟩, ⟨0, 2, 100, -1⟩, ⟨20, 3, 1, 2⟩] 100 (by decide)
  exact ⟨s, hexits, hprinted.trans (by decide +kernel)⟩

end Comp30023.Analysis
