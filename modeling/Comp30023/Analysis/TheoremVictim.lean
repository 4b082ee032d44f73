import Comp30023.Analysis.TheoremQueues
import Comp30023.Analysis.TheoremSwapIn
import Comp30023.Interface.RunnerMoments

/-!
# The victim is unambiguous

`swap_out_process_memory` compares swap-in times with `<=`, so of two process memories of
the same size and the same swap-in time it takes the later one on the list. In a run this
never happens: every process memory in main memory was swapped in by a dispatch, there is
at most one dispatch in a time step, and a process that is dispatched again while it is
still in main memory keeps its old time. So the swap-in times are pairwise different, and
the documented policy alone determines the victim.
-/

set_option autoImplicit false

namespace Comp30023.Analysis

open Comp30023.Library Comp30023.Model Comp30023.Interface

/-- The trace ends with the process control block in main memory since `time`: it was last
swapped in then, by a dispatch that printed a status line with that time. -/
def SwappedInSince (trace : List Event) (pcb : ℕ) (time : ℤ) : Prop :=
  ∃ before swappedOut line after,
    trace = before ++ Event.swapIn pcb time swappedOut :: Event.status pcb line :: after ∧
      line.time = time ∧ ∀ time' swappedOut', Event.swapIn pcb time' swappedOut' ∉ after

/-- The swap-in times of the process memories in main memory. -/
structure SwapTimes (w : World) : Prop where
  bound : ∀ p ∈ residents w.mem.procMems, p.swapInTime ≤ w.tick.time
  earlier : w.tick.running = none → ∀ p ∈ residents w.mem.procMems, p.swapInTime < w.tick.time
  distinct : ∀ p ∈ residents w.mem.procMems, ∀ q ∈ residents w.mem.procMems,
    p.swapInTime = q.swapInTime → p = q
  recorded : ∀ p ∈ residents w.mem.procMems, SwappedInSince w.trace p.ptr p.swapInTime

variable {P : Policy} {sps : List ScheduledProcess} {M : ℤ} {w v : World}

/-- INTERNAL: events that do not swap in the process again. -/
theorem SwappedInSince.append {trace events : List Event} {pcb : ℕ} {time : ℤ}
    (h : SwappedInSince trace pcb time)
    (hevents : ∀ time' swappedOut', Event.swapIn pcb time' swappedOut' ∉ events) :
    SwappedInSince (trace ++ events) pcb time := by
  obtain ⟨before, swappedOut, line, after, rfl, hline, hafter⟩ := h
  refine ⟨before, swappedOut, line, after ++ events, by simp, hline, ?_⟩
  intro time' swappedOut' hmem
  rcases List.mem_append.mp hmem with hmem | hmem
  · exact hafter time' swappedOut' hmem
  · exact hevents time' swappedOut' hmem

/-- INTERNAL: a step that swaps nothing in. -/
theorem SwapTimes.of_subset (h : SwapTimes w)
    (hsub : ∀ p ∈ residents v.mem.procMems, p ∈ residents w.mem.procMems)
    (htime : w.tick.time ≤ v.tick.time)
    (hclock : v.tick.running = none → w.tick.running = none ∨ w.tick.time < v.tick.time)
    {events : List Event} (htrace : v.trace = w.trace ++ events)
    (hevents : ∀ pcb time swappedOut, Event.swapIn pcb time swappedOut ∉ events) :
    SwapTimes v where
  bound := by
    intro p hp
    exact le_trans (h.bound p (hsub p hp)) htime
  earlier := by
    intro hidle p hp
    rcases hclock hidle with hidle' | hlt
    · exact lt_of_lt_of_le (h.earlier hidle' p (hsub p hp)) htime
    · exact lt_of_le_of_lt (h.bound p (hsub p hp)) hlt
  distinct := by
    intro p hp q hq
    exact h.distinct p (hsub p hp) q (hsub q hq)
  recorded := by
    intro p hp
    rw [htrace]
    exact (h.recorded p (hsub p hp)).append (hevents p.ptr)

/-- INTERNAL: what loading does, by whether the process is already in main memory.
SOURCE: process-scheduler.c:186-192 -/
theorem InMemory.load_cases (h : InMemory sps M w) {proc : ℕ} (hproc : proc < w.tick.admitted)
    {time : ℤ} {mem : Memory} {events : List Event}
    (hload : loadProcessMemory proc proc time w.mem = .ok (mem, events)) :
    (mem = w.mem ∧ events = []) ∨
      ∃ p victims, w.mem.find proc = some p ∧ isProcessMemoryInDisk p = true ∧
        swapInProcessMemory proc time w.mem = .ok (mem, victims) ∧
        SwapsIn M proc time w.mem mem ∧ events = [.swapIn proc time victims] := by
  obtain ⟨p, sp, hfind, -⟩ := h.find hproc
  unfold loadProcessMemory at hload
  simp only [hfind] at hload
  by_cases hdisk : isProcessMemoryInDisk p = true
  · rw [if_pos hdisk] at hload
    obtain ⟨⟨mem', victims⟩, hok, hend⟩ := bind_eq_ok hload
    simp only [Except.ok.injEq, Prod.mk.injEq] at hend
    obtain ⟨rfl, rfl⟩ := hend
    rcases swapInProcessMemory_spec time h.partition hfind hdisk with
      ⟨herr, -⟩ | ⟨m', victims', hok', hsw⟩
    · rw [herr] at hok
      cases hok
    · rw [hok', Except.ok.injEq, Prod.mk.injEq] at hok
      obtain ⟨rfl, rfl⟩ := hok
      exact Or.inr ⟨p, _, hfind, hdisk, hok', hsw, rfl⟩
  · rw [if_neg hdisk] at hload
    simp only [Except.ok.injEq, Prod.mk.injEq] at hload
    exact Or.inl ⟨hload.1.symm, hload.2.symm⟩

/-- INTERNAL: after a swap-in, main memory holds the requested process memory, with the
current time, and some of those that were there before. -/
theorem SwapsIn.resident {ptr : ℕ} {time : ℤ} {m m' : Memory} (h : SwapsIn M ptr time m m')
    {p : ProcessMemory} (hp : p ∈ residents m'.procMems) :
    (p.ptr = ptr ∧ p.swapInTime = time) ∨ (p ∈ residents m.procMems ∧ p.ptr ≠ ptr) := by
  obtain ⟨hmem, hres⟩ := mem_residents.mp hp
  have hfind := find_of_mem h.partition.pointers hmem
  by_cases hptr : p.ptr = ptr
  · left
    obtain ⟨p₀, startAddress, -, htarget, -⟩ := h.target
    rw [hptr, htarget, Option.some.injEq] at hfind
    exact ⟨hptr, by rw [← hfind]; rfl⟩
  · right
    rcases h.others p.ptr hptr with hkept | hout
    · rw [hfind] at hkept
      exact ⟨mem_residents.mpr ⟨(mem_of_find hkept.symm).1, hres⟩, hptr⟩
    · exfalso
      rw [hfind, eq_comm, Option.map_eq_some_iff] at hout
      obtain ⟨p₀, -, rfl⟩ := hout
      simp at hres

/-- INTERNAL: a dispatch that swaps in its process. -/
theorem SwapTimes.swapIn (h : SwapTimes w) (hidle : w.tick.running = none) {e : Task}
    {queues : List (List Task)} {mem : Memory} {victims : List ℕ} {sp : ScheduledProcess}
    (hsw : SwapsIn M e.proc w.tick.time w.mem mem) :
    SwapTimes ⟨w.tick.take e queues, mem, w.trace ++ ([.swapIn e.proc w.tick.time victims] ++
      [printSimulationStatus w.tick.time e.proc sp.processId mem M])⟩ := by
  have hearlier := h.earlier hidle
  refine ⟨?_, by simp [Tick.take], ?_, ?_⟩
  · intro p hp
    rcases hsw.resident hp with ⟨-, htime⟩ | ⟨hold, -⟩
    · exact le_of_eq htime
    · exact h.bound p hold
  · intro p hp q hq heq
    rcases hsw.resident hp with ⟨hptr, htime⟩ | ⟨hold, -⟩ <;>
      rcases hsw.resident hq with ⟨hptr', htime'⟩ | ⟨hold', -⟩
    · have hp' := find_of_mem hsw.partition.pointers (mem_residents.mp hp).1
      have hq' := find_of_mem hsw.partition.pointers (mem_residents.mp hq).1
      rw [hptr] at hp'
      rw [hptr', hp', Option.some.injEq] at hq'
      exact hq'
    · have := hearlier q hold'
      omega
    · have := hearlier p hold
      omega
    · exact h.distinct p hold q hold' heq
  · intro p hp
    rcases hsw.resident hp with ⟨hptr, htime⟩ | ⟨hold, hne⟩
    · rw [hptr, htime]
      exact ⟨w.trace, victims, _, [], rfl, rfl, by simp⟩
    · apply (h.recorded p hold).append
      intro time' swappedOut' hmem
      simp only [List.singleton_append, List.mem_cons, Event.swapIn.injEq, List.not_mem_nil,
        or_false] at hmem
      rcases hmem with hmem | hmem
      · exact hne hmem.1
      · simp [printSimulationStatus] at hmem

/-- The swap-in times in every world a runner comes through.
SOURCE: process-scheduler.c:182-200, 378-424, 479-540 -/
theorem swapTimes_of_reached (h : World.Reached P sps M w) (hM : 1 ≤ M)
    (hsizes : ∀ sp ∈ sps, 1 ≤ sp.memorySize) (hlevels : 0 < P.levels) : SwapTimes w := by
  induction h with
  | refl =>
    have hnone : residents (World.initial P M).mem.procMems = [] := rfl
    exact ⟨by simp [hnone], by simp [hnone], by simp [hnone], by simp [hnone]⟩
  | @tail w v hw hstep ih =>
    have hI := inMemory_of_reached hw hM hsizes hlevels
    have hplaced := (World.Reached.tick hw).placed hlevels
    cases hstep with
    | arrive hsp hdue =>
      refine ih.of_subset ?_ le_rfl Or.inl (List.append_nil _).symm (by simp)
      intro p hp
      obtain ⟨hmem, hres⟩ := mem_residents.mp hp
      rcases List.mem_append.mp hmem with hmem | hmem
      · exact mem_residents.mpr ⟨hmem, hres⟩
      · rw [List.mem_singleton.mp hmem] at hres
        simp [isProcessMemoryInDisk] at hres
    | dispatch hwait hidle hpop hsp hload =>
      rcases hI.load_cases (hplaced.popped_lt hpop) hload with
        ⟨rfl, rfl⟩ | ⟨p, victims, -, -, -, hsw, rfl⟩
      · exact ih.of_subset (fun p hp => hp) le_rfl (fun hrun => by simp [Tick.take] at hrun) rfl
          (by simp [printSimulationStatus])
      · exact ih.swapIn hidle hsw
    | terminate hr hfin hrelease =>
      obtain ⟨p, hfind, hres, hok⟩ := hI.release hr
      rw [hok, Except.ok.injEq, Prod.mk.injEq] at hrelease
      obtain ⟨rfl, rfl⟩ := hrelease
      refine ih.of_subset ?_ (by simp [Tick.terminate]) (fun _ => Or.inr (by simp [Tick.terminate]))
        (List.append_assoc _ _ _) (by simp)
      intro q hq
      have hmem := mem_residents.mpr ⟨(mem_of_find hfind).1, hres⟩
      exact ((mem_residents_release hI.partition hmem).mp hq).1
    | requeue hr =>
      exact ih.of_subset (fun p hp => hp) (by simp [Tick.requeue])
        (fun _ => Or.inr (by simp [Tick.requeue])) (List.append_assoc _ _ _) (by simp)
    | keep hr =>
      exact ih.of_subset (fun p hp => hp) (by simp) (fun _ => Or.inr (by simp)) rfl (by simp)
    | idle =>
      exact ih.of_subset (fun p hp => hp) (by simp) (fun _ => Or.inr (by simp))
        (List.append_nil _).symm (by simp)

/-! ## The calls of `swap_out_process_memory` -/

/-- A call of `swap_out_process_memory` in the state `m` takes `v`, and has no choice: every
other process memory in main memory is smaller, or as large and shorter in memory. -/
structure UniqueVictim (m : Memory) (v : ProcessMemory) : Prop where
  taken : swapOutProcessMemory m = .ok (v.ptr, m.release v)
  resident : v ∈ residents m.procMems
  largest : ∀ r ∈ residents m.procMems, r ≠ v →
    r.size < v.size ∨ r.size = v.size ∧ v.swapInTime < r.swapInTime
  /-- the order of the list does not matter -/
  anyOrder : ∀ l, l.Perm m.procMems → findSwapOut l = some v

/-- INTERNAL: with pairwise different swap-in times, what is swapped out next is the only
process memory that the policy allows.
SOURCE: memory-management.c:405-456 -/
theorem uniqueVictim_of_distinct {m : Memory} {v : ProcessMemory} (hP : Partition M m)
    (hdistinct : ∀ p ∈ residents m.procMems, ∀ q ∈ residents m.procMems,
      p.swapInTime = q.swapInTime → p = q)
    (hv : findSwapOut m.procMems = some v) : UniqueVictim m v := by
  have hvres := findSwapOut_mem hv
  have hlargest : ∀ r ∈ residents m.procMems, r ≠ v → Withstands v r := by
    intro r hr hne
    have hbefore := findSwapOut_before hP.pointers hv hr hne
    have htimes : v.swapInTime ≠ r.swapInTime := by
      intro heq
      exact hne (hdistinct v hvres r hr heq).symm
    unfold EvictedBefore at hbefore
    unfold Withstands
    omega
  refine ⟨by simp only [swapOutProcessMemory, hv], hvres, hlargest, ?_⟩
  intro l hl
  have hmem : ∀ q, q ∈ residents l ↔ q ∈ residents m.procMems := by
    intro q
    rw [mem_residents, mem_residents, hl.mem_iff]
  cases hw : findSwapOut l with
  | none =>
    have hnone := findSwapOut_eq_none.mp hw
    have := (hmem v).mpr hvres
    rw [hnone] at this
    simp at this
  | some u =>
    by_contra hne
    have hne' : u ≠ v := by
      intro heq
      exact hne (congrArg some heq)
    have hptr : (l.map ProcessMemory.ptr).Nodup :=
      (hl.map ProcessMemory.ptr).nodup_iff.mpr hP.pointers
    have hbefore := findSwapOut_before hptr hw ((hmem v).mpr hvres) (Ne.symm hne')
    have hlarge := hlargest u ((hmem u).mp (findSwapOut_mem hw)) hne'
    unfold EvictedBefore at hbefore
    unfold Withstands at hlarge
    omega

/-- INTERNAL: every call of the eviction loop has a unique victim, which was in main memory
from the beginning.
SOURCE: memory-management.c:351-456 -/
theorem uniqueVictim_of_swapIn {m mem : Memory} {p : ProcessMemory} {ptr : ℕ} {time : ℤ}
    {victims : List ℕ} (hP : Partition M m)
    (hdistinct : ∀ p ∈ residents m.procMems, ∀ q ∈ residents m.procMems,
      p.swapInTime = q.swapInTime → p = q)
    (hfind : m.find ptr = some p) (hdisk : isProcessMemoryInDisk p = true) (hsize : p.size ≤ M)
    (hok : swapInProcessMemory ptr time m = .ok (mem, victims)) (i : ℕ) (hi : i < victims.length) :
    ∃ mᵢ v, swapOuts i m = .ok mᵢ ∧ UniqueVictim mᵢ v ∧ victims[i] = v.ptr ∧
      v ∈ residents m.procMems := by
  obtain ⟨es, hes⟩ := exists_evictionOrder hP.pointers
  have hnodup := evictionOrder_nodup hP hes
  obtain ⟨k, hk, -, startAddress, memSegs, -, hloop⟩ :=
    swapInLoop_greedy time hP hes hfind hdisk hsize
  have hlen : es.length ≤ m.procMems.length := by
    rw [hes.perm.length_eq]
    exact List.length_filter_le _ _
  unfold swapInProcessMemory at hok
  rw [hloop _ [] (by omega), List.nil_append, Except.ok.injEq, Prod.mk.injEq] at hok
  obtain ⟨-, rfl⟩ := hok
  rw [List.length_map, List.length_take] at hi
  have hlt : i < es.length := by omega
  have hpart : Partition M (releaseAll m (es.take i)) :=
    partition_releaseAll hP (hnodup.sublist (List.take_sublist i es)) (evictionOrder_mem_take hes i)
  have hnext : findSwapOut (releaseAll m (es.take i)).procMems = some es[i] := by
    have horder := evictionOrder_releaseAll hP hes i
    rw [List.drop_eq_getElem_cons hlt] at horder
    exact findSwapOut_of_order hpart horder
  refine ⟨releaseAll m (es.take i), es[i], swapOuts_eq hP hes (by omega), ?_, by simp, ?_⟩
  · apply uniqueVictim_of_distinct hpart _ hnext
    intro p hp q hq
    rw [residents_releaseAll_take hP hes] at hp hq
    exact hdistinct p (hes.perm.mem_iff.mp (List.mem_of_mem_drop hp))
      q (hes.perm.mem_iff.mp (List.mem_of_mem_drop hq))
  · exact hes.perm.mem_iff.mp (List.getElem_mem hlt)

/-! ## The runner -/

/-- INTERNAL: the process memory of a block, and where the task of a terminated block is.
SOURCE: process-scheduler.c:19-44, 226-242 -/
theorem block_place {s : RunnerState} {a : Tick} (h : Represents P sps M s a) {i : ℕ}
    {b : ProcessControlBlock} (hb : s.pcbs[i]? = some b) :
    b.processMemory = i ∧
      (b.processState = .terminated → ∃ e ∈ a.terminated, e.proc = i) := by
  have hlt : i < a.admitted := by
    rw [← h.blocks]
    exact (List.getElem?_eq_some_iff.mp hb).1
  have hmem : i ∈ a.procs := h.placed.procs.mem_iff.mpr (List.mem_range.mpr hlt)
  unfold Tick.procs at hmem
  rcases List.mem_append.mp hmem with hmem | hmem
  · obtain ⟨e, he, rfl⟩ := List.mem_map.mp hmem
    obtain ⟨b', -, hb', -, hready, -, -, -, hptr, -⟩ := ready_block h he
    rw [hb, Option.some.injEq] at hb'
    subst hb'
    exact ⟨hptr, by simp [hready]⟩
  · rcases List.mem_append.mp hmem with hmem | hmem
    · obtain ⟨r, hr, rfl⟩ := List.mem_map.mp hmem
      obtain ⟨sp, -, hb'⟩ := h.running_block (Option.mem_toList.mp hr)
      rw [hb, Option.some.injEq] at hb'
      subst hb'
      exact ⟨rfl, by simp⟩
    · obtain ⟨e, he, rfl⟩ := List.mem_map.mp hmem
      obtain ⟨b', -, hb', -, -, -, -, -, hptr, -⟩ := terminated_block h he
      rw [hb, Option.some.injEq] at hb'
      subst hb'
      exact ⟨hptr, fun _ => ⟨e, he, rfl⟩⟩

/-- INTERNAL: the swap-in times in every moment of a pass. -/
theorem swapTimes_of_moment {R : Runner}
    (hfit : ∀ sp ∈ sps, 1 ≤ sp.memorySize ∧ sp.memorySize ≤ M) {s : RunnerState}
    (h : R.Moment sps M s) :
    (∀ p ∈ residents s.mem.procMems, ∀ p' ∈ residents s.mem.procMems,
      p.swapInTime = p'.swapInTime → p = p') ∧
    ∀ p ∈ residents s.mem.procMems, p.swapInTime ≤ s.time ∧
      ∃ pcb b, s.pcbs[pcb]? = some b ∧ b.processMemory = p.ptr ∧
        SwappedInSince s.trace pcb p.swapInTime := by
  obtain ⟨w, hw, hmem, hclock⟩ := h.world
  obtain ⟨a, hrep⟩ := h.represents
  rcases eq_or_ne sps [] with rfl | hne
  · have hnone : residents s.mem.procMems = [] := by
      rw [hmem, world_reached_nil hw]
      rfl
    simp [hnone]
  have hM := one_le_of_fit hfit hne
  have hsizes : ∀ sp ∈ sps, 1 ≤ sp.memorySize := by
    intro sp hsp
    exact (hfit sp hsp).1
  have hI := inMemory_of_reached hw hM hsizes R.levels_pos
  have hT := swapTimes_of_reached hw hM hsizes R.levels_pos
  rw [hmem]
  refine ⟨hT.distinct, ?_⟩
  intro p hp
  have hbound := hT.bound p hp
  have hlt : p.ptr < s.pcbs.length := by
    rw [hrep.blocks, ← hrep.allocated, hmem]
    exact hI.partition.allocated p (mem_residents.mp hp).1
  have hb := List.getElem?_eq_getElem hlt
  refine ⟨by omega, p.ptr, _, hb, (block_place hrep hb).1, ?_⟩
  rcases hclock with ⟨-, htrace⟩ | ⟨-, htrace | ⟨pcb, htrace⟩⟩ <;> rw [htrace]
  · exact hT.recorded p hp
  · exact hT.recorded p hp
  · exact (hT.recorded p hp).append (by simp)

/-- INTERNAL: the victims of a loading stage. -/
theorem uniqueVictim_of_loading {R : Runner}
    (hfit : ∀ sp ∈ sps, 1 ≤ sp.memorySize ∧ sp.memorySize ≤ M) {s loaded : RunnerState}
    (h : R.Loading sps M s loaded) {events : List Event}
    (htrace : loaded.trace = s.trace ++ events) {pcb : ℕ} {time : ℤ} {victims : List ℕ}
    (hevent : Event.swapIn pcb time victims ∈ events) (i : ℕ) (hi : i < victims.length) :
    ∃ mᵢ v, swapOuts i s.mem = .ok mᵢ ∧ UniqueVictim mᵢ v ∧ victims[i] = v.ptr ∧
      (∀ b, s.pcbs[pcb]? = some b → b.processMemory ≠ v.ptr) ∧
      ∀ (j : ℕ) (b : ProcessControlBlock), s.pcbs[j]? = some b → b.processState = .terminated → b.processMemory ≠ v.ptr := by
  obtain ⟨a, b, ⟨hrep, hw⟩, -, ⟨-, -, hsame⟩ |
    ⟨e, queues, sp, swaps, hidle, hpop, -, hsp, hload, hprint⟩⟩ := h.world
  · rw [hsame, List.self_eq_append_right] at htrace
    rw [htrace] at hevent
    simp at hevent
  have hM := one_le_of_fit hfit (List.ne_nil_of_mem (List.mem_of_getElem? hsp))
  have hsizes : ∀ sp ∈ sps, 1 ≤ sp.memorySize := by
    intro sp hsp
    exact (hfit sp hsp).1
  have hI := inMemory_of_reached hw hM hsizes R.levels_pos
  have hT := swapTimes_of_reached hw hM hsizes R.levels_pos
  have hplaced := (World.Reached.tick hw).placed R.levels_pos
  rw [hprint, List.append_cancel_left_eq] at htrace
  rw [← htrace, List.mem_append] at hevent
  -- the event is the one of this stage, and the process was in disk before it
  rcases hI.load_cases (hplaced.popped_lt hpop) hload with
    ⟨-, rfl⟩ | ⟨p, victims', hfind, hdisk, hok, -, rfl⟩
  · simp [printSimulationStatus] at hevent
  simp only [List.mem_singleton, Event.swapIn.injEq, printSimulationStatus, reduceCtorEq,
    or_false] at hevent
  obtain ⟨rfl, -, rfl⟩ := hevent
  obtain ⟨p', sp', hfind', hsp', -, hsize, -⟩ := hI.find (hplaced.popped_lt hpop)
  have hsame : p' = p := Option.some.inj (hfind'.symm.trans hfind)
  rw [hsp, Option.some.injEq] at hsp'
  have hle : p.size ≤ M := by
    rw [← hsame, hsize, ← hsp']
    exact (hfit sp (List.mem_of_getElem? hsp)).2
  obtain ⟨mᵢ, v, hstate, hunique, hptr, hv⟩ :=
    uniqueVictim_of_swapIn hI.partition hT.distinct hfind hdisk hle hok i hi
  have hvfind := find_of_mem hI.partition.pointers (mem_residents.mp hv).1
  have hvres := (mem_residents.mp hv).2
  refine ⟨mᵢ, v, hstate, hunique, hptr, ?_, ?_⟩
  · intro b hb heq
    rw [(block_place hrep hb).1] at heq
    rw [← heq, hfind, Option.some.injEq] at hvfind
    rw [hvfind, hvres] at hdisk
    cases hdisk
  · intro j b hb hterm heq
    obtain ⟨hmemory, hplace⟩ := block_place hrep hb
    obtain ⟨t, ht, rfl⟩ := hplace hterm
    obtain ⟨p'', hfind'', hdisk'', -⟩ := hI.terminated t ht
    rw [hmemory] at heq
    rw [heq, hvfind, Option.some.injEq] at hfind''
    rw [← hfind'', hvres] at hdisk''
    cases hdisk''

/-- **The victim is unambiguous.** For every file whose processes fit into main memory: in
every state that `multi_scheduler_runner` comes through, the process memories in main memory
have pairwise different swap-in times, none later than now, each the time of the status line
of the dispatch that last brought its process in from disk. So whenever
`swap_out_process_memory` is called, there is one process memory that is larger than every
other one in main memory, or as large and longer in memory; it is the victim, whatever the
order of the list, and it belongs neither to the process that is loaded nor to a terminated
one.
SOURCE: memory-management.c:405-456, process-scheduler.c:182-200, 479-540 -/
theorem multi_victim_unambiguous (q : Quanta) (sps : List ScheduledProcess) (memsize : ℤ)
    (hfit : ∀ sp ∈ sps, 1 ≤ sp.memorySize ∧ sp.memorySize ≤ memsize) :
    (∀ s, (Runner.multi q).Moment sps memsize s →
      (∀ p ∈ residents s.mem.procMems, ∀ p' ∈ residents s.mem.procMems,
        p.swapInTime = p'.swapInTime → p = p') ∧
      ∀ p ∈ residents s.mem.procMems, p.swapInTime ≤ s.time ∧
        ∃ pcb b, s.pcbs[pcb]? = some b ∧ b.processMemory = p.ptr ∧
          SwappedInSince s.trace pcb p.swapInTime) ∧
    ∀ s loaded events pcb time victims, (Runner.multi q).Loading sps memsize s loaded →
      loaded.trace = s.trace ++ events → Event.swapIn pcb time victims ∈ events →
      ∀ (i : ℕ) (hi : i < victims.length),
        ∃ mᵢ v, swapOuts i s.mem = .ok mᵢ ∧ UniqueVictim mᵢ v ∧ victims[i] = v.ptr ∧
          (∀ b, s.pcbs[pcb]? = some b → b.processMemory ≠ v.ptr) ∧
          ∀ (j : ℕ) (b : ProcessControlBlock), s.pcbs[j]? = some b → b.processState = .terminated →
            b.processMemory ≠ v.ptr := by
  constructor
  · intro s hs
    exact swapTimes_of_moment hfit hs
  · intro s loaded events pcb time victims hload htrace hevent i hi
    exact uniqueVictim_of_loading hfit hload htrace hevent i hi

/-- Two processes of the same size that both have to go for the third one: the one that was
loaded first goes first.
SOURCE: memory-management.c:405-456 -/
theorem multi_victim_unambiguous_two :
    ∃ s loaded events victims, (Runner.multi defaultQuanta).Loading
        [⟨0, 1, 40, 5⟩, ⟨0, 2, 40, 5⟩, ⟨0, 3, 90, 5⟩] 100 s loaded ∧
      loaded.trace = s.trace ++ events ∧ Event.swapIn 2 4 victims ∈ events ∧ victims = [0, 1] ∧
      ∀ (i : ℕ) (hi : i < victims.length),
        ∃ mᵢ v, swapOuts i s.mem = .ok mᵢ ∧ UniqueVictim mᵢ v ∧ victims[i] = v.ptr := by
  have hload : ∃ s loaded, (Runner.multi defaultQuanta).Loading
        [⟨0, 1, 40, 5⟩, ⟨0, 2, 40, 5⟩, ⟨0, 3, 90, 5⟩] 100 s loaded ∧
      loaded.trace = s.trace ++ [.swapIn 2 4 [0, 1], .status 2 ⟨4, 3, 1, 1, 90⟩] :=
    ⟨_, _, ⟨⟨_, ⟨4, rfl⟩, rfl⟩, rfl⟩, rfl⟩
  obtain ⟨s, loaded, hload, htrace⟩ := hload
  refine ⟨s, loaded, _, [0, 1], hload, htrace, by simp, rfl, ?_⟩
  intro i hi
  obtain ⟨mᵢ, v, hstate, hunique, hptr, -⟩ := (multi_victim_unambiguous defaultQuanta
    [⟨0, 1, 40, 5⟩, ⟨0, 2, 40, 5⟩, ⟨0, 3, 90, 5⟩] 100 (by decide)).2 s loaded _ 2 4 [0, 1] hload
    htrace (by simp) i hi
  exact ⟨mᵢ, v, hstate, hunique, hptr⟩

end Comp30023.Analysis
