import Mathlib.Tactic.Linarith
import Mathlib.Tactic.Ring
import Mathlib.Algebra.Order.BigOperators.Group.Multiset
import Comp30023.Interface.TickRuns

/-!
# How far the tick scheduler has come

Two invariants of every reached state (`Placed`, from before, and `Paced`: nothing is
admitted before it is due, and no process gets more CPU time than it needs) and one
quantity, the CPU time `owed` to the processes of the whole file. It stays as it is
while processes are admitted and dispatched, and a tick of the clock takes one away
unless there is nothing to do, in which case the clock comes closer to the last start
time. So every run ends, and then every process has had what it needs.
-/

set_option autoImplicit false

namespace Comp30023.Interface

open Comp30023.Library Comp30023.Model

/-- The latest start time of a file, or zero if that is later. -/
def horizon (sps : List ScheduledProcess) : ℤ :=
  sps.foldl (fun t sp => max t sp.startTime) 0

/-- When a process becomes available: a process of the file waits for those before it. -/
def arrival (sps : List ScheduledProcess) (proc : ℕ) : ℤ := horizon (sps.take (proc + 1))

/-- The CPU time that the admitted processes still need. -/
def backlog (sps : List ScheduledProcess) (a : Tick) : ℤ :=
  (a.load.map fun x => demand sps x.1 - x.2).sum

/-- The CPU time that the processes of the file still need, admitted or not. -/
def owed (sps : List ScheduledProcess) (a : Tick) : ℤ :=
  backlog sps a + ((sps.drop a.admitted).map fun sp => max 1 sp.jobTime).sum

variable {P : Policy} {sps : List ScheduledProcess} {a b : Tick}

/-! ## Start times -/

theorem foldl_max_le_iff (l : List ScheduledProcess) (x t : ℤ) :
    l.foldl (fun t sp => max t sp.startTime) x ≤ t ↔ x ≤ t ∧ ∀ sp ∈ l, sp.startTime ≤ t := by
  induction l generalizing x with
  | nil => simp
  | cons sp l ih =>
    rw [List.foldl_cons, ih, max_le_iff, List.forall_mem_cons, and_assoc]

theorem horizon_le_iff {t : ℤ} :
    horizon sps ≤ t ↔ 0 ≤ t ∧ ∀ sp ∈ sps, sp.startTime ≤ t :=
  foldl_max_le_iff sps 0 t

theorem arrival_le_iff {proc : ℕ} {t : ℤ} :
    arrival sps proc ≤ t ↔
      0 ≤ t ∧ ∀ j ≤ proc, ∀ sp, sps[j]? = some sp → sp.startTime ≤ t := by
  unfold arrival
  rw [horizon_le_iff]
  refine and_congr_right fun _ => ⟨fun h j hj sp hsp => h sp ?_, fun h sp hsp => ?_⟩
  · exact List.mem_of_getElem? (i := j) (by rw [List.getElem?_take, if_pos (by omega), hsp])
  · obtain ⟨j, hj⟩ := List.mem_iff_getElem?.mp hsp
    rw [List.getElem?_take] at hj
    split at hj
    · exact h j (by omega) sp hj
    · simp at hj

theorem lt_horizon {proc : ℕ} {sp : ScheduledProcess} (hsp : sps[proc]? = some sp) {t : ℤ}
    (h : t < sp.startTime) : t < horizon sps := by
  by_contra hle
  have := (horizon_le_iff.mp (not_lt.mp hle)).2 sp (List.mem_of_getElem? hsp)
  omega

theorem demand_eq {proc : ℕ} {sp : ScheduledProcess} (hsp : sps[proc]? = some sp) :
    demand sps proc = max 1 sp.jobTime := by
  simp [demand, jobTimeOf, hsp]

theorem demand_pos (sps : List ScheduledProcess) (proc : ℕ) : 1 ≤ demand sps proc :=
  le_max_left _ _

/-! ## The invariants of a reached state -/

theorem Step.placed (h : Step P sps a b) (hlevels : 0 < P.levels) (ha : a.Placed P) :
    b.Placed P := by
  cases h with
  | arrive => exact ha.admitOne hlevels
  | dispatch _ hidle hpop => exact ha.take hidle hpop
  | terminate hr => exact ha.execute.terminate (Tick.execute_running hr)
  | requeue hr => exact ha.execute.requeue (Tick.execute_running hr) hlevels
  | keep => exact ha.execute
  | idle => exact ha.execute

theorem Reached.placed (h : Reached P sps a) (hlevels : 0 < P.levels) : a.Placed P := by
  induction h with
  | refl => exact Tick.placed_initial P
  | tail _ hstep ih => exact hstep.placed hlevels ih

/-- Processes are admitted in time, and get the CPU for no longer than they need it. -/
structure Tick.Paced (sps : List ScheduledProcess) (a : Tick) : Prop where
  time : 0 ≤ a.time
  bound : a.admitted ≤ sps.length
  due : ∀ proc < a.admitted, ∀ sp, sps[proc]? = some sp → sp.startTime ≤ a.time
  live : ∀ x ∈ a.load, 0 ≤ x.2 ∧ x.2 < demand sps x.1
  finished : ∀ e ∈ a.terminated, e.cpu = demand sps e.proc

/-- INTERNAL: a tick of the clock keeps what is due. -/
theorem Tick.Paced.of_clock (ha : a.Paced sps) (htime : b.time = a.time + 1)
    (hadm : b.admitted = a.admitted) (hlive : ∀ x ∈ b.load, 0 ≤ x.2 ∧ x.2 < demand sps x.1)
    (hfin : ∀ e ∈ b.terminated, e.cpu = demand sps e.proc) : b.Paced sps where
  time := by rw [htime]; linarith [ha.time]
  bound := hadm ▸ ha.bound
  due := fun proc hproc sp hsp => by
    rw [htime]
    linarith [ha.due proc (hadm ▸ hproc) sp hsp]
  live := hlive
  finished := hfin

/-- INTERNAL: what the running process has had. -/
theorem Tick.Paced.running_live (ha : a.Paced sps) {r : Task} (hr : a.running = some r) :
    0 ≤ r.cpu ∧ r.cpu < demand sps r.proc := by
  apply ha.live (r.proc, r.cpu)
  rw [Tick.load_running hr]
  exact Multiset.mem_cons_self _ _

/-- INTERNAL: a process that goes on running has had less than it needs.
SOURCE: process-scheduler.c:244-247 -/
theorem Tick.Paced.live_ran (ha : a.Paced sps) {r : Task} (hr : a.running = some r)
    (hfin : r.cpu + 1 < jobTimeOf sps r.proc) :
    ∀ x ∈ (r.proc, r.cpu + 1) ::ₘ a.waiting, 0 ≤ x.2 ∧ x.2 < demand sps x.1 := by
  intro x hx
  rcases Multiset.mem_cons.mp hx with rfl | hx
  · have hnonneg := (ha.running_live hr).1
    exact ⟨by linarith, lt_of_lt_of_le hfin (le_max_right _ _)⟩
  · apply ha.live x
    rw [Tick.load_running hr]
    exact Multiset.mem_cons_of_mem hx

/-- INTERNAL: a process is stopped in the time step that gives it what it needs.
SOURCE: process-scheduler.c:244-247 -/
theorem Tick.Paced.ran_eq_demand (ha : a.Paced sps) {r : Task} (hr : a.running = some r)
    (hfin : jobTimeOf sps r.proc ≤ r.cpu + 1) : r.cpu + 1 = demand sps r.proc := by
  have hlive := ha.running_live hr
  simp only [demand] at hlive ⊢
  omega

theorem Step.paced (h : Step P sps a b) (hlevels : 0 < P.levels) (hplaced : a.Placed P)
    (ha : a.Paced sps) : b.Paced sps := by
  cases h with
  | arrive hsp hdue =>
    refine ⟨ha.time, ?_, fun proc hproc sp' hsp' => ?_, ?_, ha.finished⟩
    · exact (List.getElem?_eq_some_iff.mp hsp).1
    · rcases Nat.lt_succ_iff_lt_or_eq.mp hproc with hlt | rfl
      · exact ha.due proc hlt sp' hsp'
      · rw [hsp, Option.some.injEq] at hsp'
        exact hsp' ▸ hdue
    · rw [Tick.load_admitOne (by rw [hplaced.levels]; exact hlevels)]
      intro x hx
      rcases Multiset.mem_cons.mp hx with rfl | hx
      · exact ⟨le_refl _, lt_of_lt_of_le zero_lt_one (demand_pos _ _)⟩
      · exact ha.live x hx
  | dispatch _ hidle hpop =>
    exact ⟨ha.time, ha.bound, ha.due, by rw [Tick.load_take hidle hpop]; exact ha.live, ha.finished⟩
  | @terminate r hr hfin =>
    refine ha.of_clock a.execute_time a.execute_admitted ?_ ?_
    · rw [Tick.load_terminate]
      have hlive := ha.live
      rw [Tick.load_running hr] at hlive
      intro x hx
      exact hlive x (Multiset.mem_cons_of_mem hx)
    · intro e he
      simp only [Tick.terminate, Tick.execute_terminated] at he
      rcases List.mem_append.mp he with he | he
      · exact ha.finished e he
      · rw [List.mem_singleton.mp he]
        exact ha.ran_eq_demand hr hfin
  | requeue hr hfin =>
    refine ha.of_clock a.execute_time a.execute_admitted ?_
      (by simpa [Tick.requeue] using ha.finished)
    rw [Tick.load_requeue _ hlevels hplaced.levels]
    exact ha.live_ran hr hfin
  | keep hr hfin =>
    refine ha.of_clock a.execute_time a.execute_admitted ?_ (by simpa using ha.finished)
    rw [Tick.load_execute hr]
    exact ha.live_ran hr hfin
  | idle _ _ hidle =>
    refine ha.of_clock a.execute_time a.execute_admitted ?_ (by simpa using ha.finished)
    rw [Tick.load_execute_idle hidle]
    exact ha.live

theorem Reached.paced (h : Reached P sps a) (hlevels : 0 < P.levels) : a.Paced sps := by
  induction h with
  | refl => exact ⟨le_refl _, Nat.zero_le _, by simp [Tick.initial], by simp [Tick.initial,
      Tick.load, Tick.waiting], by simp [Tick.initial]⟩
  | tail hab hstep ih => exact hstep.paced hlevels (Reached.placed hab hlevels) ih

/-! ## The CPU time owed -/

/-- INTERNAL: what a step does to the CPU time owed. The three kinds of ticks differ in where
the running task goes and not in what it has had.
SOURCE: process-scheduler.c:378-424, 479-540 -/
theorem Step.owed_cases (h : Step P sps a b) (hlevels : 0 < P.levels) (hplaced : a.Placed P)
    (ha : a.Paced sps) :
    (b.time = a.time ∧ owed sps b = owed sps a) ∨
    (b.time = a.time + 1 ∧ a.load ≠ 0 ∧ b.admitted = a.admitted ∧
      owed sps b = owed sps a - 1) ∨
    (b.time = a.time + 1 ∧ a.load = 0 ∧ b.admitted = a.admitted ∧ owed sps b = owed sps a ∧
      a.time < horizon sps) := by
  have hbusy : ∀ {r : Task}, a.running = some r → a.load ≠ 0 := fun hr => by
    rw [Tick.load_running hr]
    exact Multiset.cons_ne_zero
  cases h with
  | @arrive sp hsp hdue =>
    refine Or.inl ⟨rfl, ?_⟩
    have hdrop : sps.drop a.admitted = sp :: sps.drop (a.admitted + 1) := by
      obtain ⟨hlt, hget⟩ := List.getElem?_eq_some_iff.mp hsp
      rw [List.drop_eq_getElem_cons hlt, hget]
    unfold owed backlog
    rw [Tick.load_admitOne (by rw [hplaced.levels]; exact hlevels), hdrop]
    simp only [Multiset.map_cons, Multiset.sum_cons, List.map_cons, List.sum_cons, Tick.admitOne,
      demand_eq hsp]
    ring
  | dispatch _ hidle hpop =>
    refine Or.inl ⟨rfl, ?_⟩
    unfold owed backlog
    rw [Tick.load_take hidle hpop]
    rfl
  | @terminate r hr hfin =>
    refine Or.inr (Or.inl ⟨a.execute_time, hbusy hr, a.execute_admitted, ?_⟩)
    have heq := ha.ran_eq_demand hr hfin
    unfold owed backlog
    rw [Tick.load_terminate, Tick.load_running hr, Multiset.map_cons, Multiset.sum_cons]
    simp only [Tick.terminate, Tick.execute_admitted]
    linarith
  | @requeue r hr hfin =>
    refine Or.inr (Or.inl ⟨a.execute_time, hbusy hr, a.execute_admitted, ?_⟩)
    unfold owed backlog
    rw [Tick.load_requeue _ hlevels hplaced.levels, Tick.load_running hr]
    simp only [Multiset.map_cons, Multiset.sum_cons, Tick.requeue, Tick.execute_admitted]
    ring
  | @keep r hr hfin =>
    refine Or.inr (Or.inl ⟨a.execute_time, hbusy hr, a.execute_admitted, ?_⟩)
    unfold owed backlog
    rw [Tick.load_execute hr, Tick.load_running hr]
    simp only [Multiset.map_cons, Multiset.sum_cons, Tick.execute_admitted]
    ring
  | @idle sp hsp hwait hidle hempty =>
    refine Or.inr (Or.inr ⟨a.execute_time, Tick.load_eq_zero.mpr ⟨hidle, hempty⟩,
      a.execute_admitted, ?_, lt_horizon hsp hwait⟩)
    unfold owed backlog
    rw [Tick.load_execute_idle hidle, Tick.execute_admitted]

/-- INTERNAL: an admitted process that is not finished still needs CPU time. -/
theorem Tick.Paced.backlog_eq_zero (ha : a.Paced sps) :
    0 ≤ backlog sps a ∧ (backlog sps a = 0 ↔ a.load = 0) := by
  have hnonneg : ∀ l : Multiset (ℕ × ℤ), (∀ x ∈ l, x.2 < demand sps x.1) →
      0 ≤ (l.map fun x => demand sps x.1 - x.2).sum := by
    intro l hl
    apply Multiset.sum_nonneg
    intro x hx
    obtain ⟨y, hy, rfl⟩ := Multiset.mem_map.mp hx
    linarith [hl y hy]
  unfold backlog
  refine ⟨hnonneg _ fun x hx => (ha.live x hx).2, fun hzero => ?_, fun hzero => by simp [hzero]⟩
  by_contra hne
  obtain ⟨y, hy⟩ := Multiset.exists_mem_of_ne_zero hne
  obtain ⟨rest, hrest⟩ := Multiset.exists_cons_of_mem hy
  have hothers := hnonneg rest fun x hx => (ha.live x (hrest ▸ Multiset.mem_cons_of_mem hx)).2
  rw [hrest, Multiset.map_cons, Multiset.sum_cons] at hzero
  linarith [(ha.live y hy).2]

/-- INTERNAL: as long as a process is not finished something is owed. -/
theorem Tick.Paced.owed_nonneg (ha : a.Paced sps) :
    0 ≤ owed sps a ∧ (a.load ≠ 0 → 0 < owed sps a) := by
  have hrest : 0 ≤ ((sps.drop a.admitted).map fun sp => max 1 sp.jobTime).sum := by
    apply List.sum_nonneg
    intro x hx
    obtain ⟨sp, -, rfl⟩ := List.mem_map.mp hx
    exact le_trans zero_le_one (le_max_left _ _)
  obtain ⟨hnonneg, hzero⟩ := ha.backlog_eq_zero
  unfold owed
  refine ⟨add_nonneg hnonneg hrest, fun hne => ?_⟩
  have hpos : 0 < backlog sps a := lt_of_le_of_ne hnonneg fun h => hne (hzero.mp h.symm)
  linarith

/-! ## Every run ends -/

/-- What is left to do and how long nothing may happen until then. -/
def fuel (sps : List ScheduledProcess) (a : Tick) : ℕ :=
  (owed sps a).toNat + (horizon sps - a.time).toNat

theorem Step.fuel (h : Step P sps a b) (hlevels : 0 < P.levels) (hplaced : a.Placed P)
    (ha : a.Paced sps) :
    fuel sps b ≤ fuel sps a ∧ (b.time = a.time ∨ fuel sps b < fuel sps a) := by
  obtain ⟨hnonneg, hpos⟩ := ha.owed_nonneg
  unfold Interface.fuel
  rcases h.owed_cases hlevels hplaced ha with ⟨ht, ho⟩ | ⟨ht, hbusy, -, ho⟩ | ⟨ht, -, -, ho, hw⟩
  · rw [ht, ho]
    exact ⟨le_refl _, Or.inl rfl⟩
  · have := hpos hbusy
    omega
  · omega

/-- INTERNAL: whenever the clock has moved, there is less left to do. -/
theorem Steps.fuel (h : Steps P sps a b) (hlevels : 0 < P.levels) (ha : Reached P sps a) :
    fuel sps b ≤ fuel sps a ∧ (b.time = a.time ∨ fuel sps b < fuel sps a) := by
  induction h with
  | refl => exact ⟨le_refl _, Or.inl rfl⟩
  | tail hab hstep ih =>
    have hb : Reached P sps _ := Relation.ReflTransGen.trans ha hab
    have := hstep.fuel hlevels (hb.placed hlevels) (hb.paced hlevels)
    omega

/-- INTERNAL: a time step that goes on moves the clock. -/
theorem Tick.pass_again_time (h : a.pass P sps = .again b) : b.time = a.time + 1 := by
  rcases a.pass_cases P sps with ⟨c, -, -, -, -, -, hp⟩ | ⟨c, d, -, ht, -, -, -, hd, hp⟩
  · simp [h] at hp
  · rw [h, Pass.again.injEq] at hp
    rw [hp, hd, Tick.finish_time, Tick.execute_time, ht]

/-- Every run of the scheduler ends.
SOURCE: process-scheduler.c:378-424, 479-540 -/
theorem tickRun_exits (hlevels : 0 < P.levels) (sps : List ScheduledProcess) :
    ∃ n b, tickRun P sps n = .ok (.done b) := by
  have hstep : ∀ u v, Reached P sps u → pureBody (Tick.pass P sps) u = .ok (.again v) →
      Reached P sps v ∧ fuel sps v < fuel sps u := by
    intro u v hu hv
    have hpass : u.pass P sps = .again v := by simpa [pureBody] using hv
    have hsteps := Tick.pass_steps P sps u
    rw [hpass] at hsteps
    refine ⟨Relation.ReflTransGen.trans hu hsteps, ?_⟩
    have htime := Tick.pass_again_time hpass
    rcases (Steps.fuel hsteps hlevels hu).2 with heq | hlt
    · simp only [Pass.state] at heq
      omega
    · exact hlt
  rcases exits_or_faults_of_measure (fuel sps) hstep (Tick.initial P)
    Relation.ReflTransGen.refl with ⟨b, n, h⟩ | ⟨e, -⟩
  · exact ⟨n, b, h⟩
  · exact e.elim

/-- At the end of a run every process of the file is finished.
SOURCE: process-scheduler.c:399-402, 503-506 -/
theorem tickRun_done {n : ℕ} (h : tickRun P sps n = .ok (.done b)) (hlevels : 0 < P.levels) :
    b.running = none ∧ b.queues.flatten = [] ∧ b.admitted = sps.length ∧
      (b.terminated.map Task.proc).Perm (List.range sps.length) := by
  obtain ⟨m, t, -, hm, hlast⟩ := exits_last h
  have ht : Reached P sps t := tickRun_reached hm
  have hpass : t.pass P sps = .done b := by simpa [pureBody] using hlast
  rcases t.pass_cases P sps with ⟨c, hc, -, hidle, hempty, hend, hp⟩ | ⟨c, d, -, -, -, -, -, -, hp⟩
  · rw [hpass, Pass.done.injEq] at hp
    subst hp
    have hb : Reached P sps b := Relation.ReflTransGen.trans ht hc
    have hflat := popFirst_eq_none_iff_flatten.mp hempty
    have hadm : b.admitted = sps.length :=
      le_antisymm (hb.paced hlevels).bound (List.getElem?_eq_none_iff.mp hend)
    refine ⟨hidle, hflat, hadm, ?_⟩
    have hprocs := (hb.placed hlevels).procs
    simpa [Tick.procs, hflat, hidle, hadm] using hprocs
  · simp [hpass] at hp

end Comp30023.Interface
