import Comp30023.Interface.TickPace

/-!
# The scheduler together with main memory

A `World` is a state of the tick scheduler with the memory and the trace its history
leads to. `World.Step` is `Step` with the memory operation of each action, so an
invariant about scheduling and memory together has one case per constructor again. A
reached state whose history replays without a fault is a reached world.
-/

set_option autoImplicit false

namespace Comp30023.Interface

open Comp30023.Library Comp30023.Model

/-- A scheduler, its main memory and the events so far. -/
structure World where
  tick : Tick
  mem : Memory
  trace : List Event

/-- The world before the first time step. -/
def World.initial (P : Policy) (memsize : ℤ) : World := ⟨Tick.initial P, newMemory memsize, []⟩

/-- What can happen in a world. -/
inductive World.Step (P : Policy) (sps : List ScheduledProcess) (memsize : ℤ) :
    World → World → Prop
  | arrive {w : World} {sp : ScheduledProcess} (hsp : sps[w.tick.admitted]? = some sp)
      (hdue : sp.startTime ≤ w.tick.time) :
      World.Step P sps memsize w
        ⟨w.tick.admitOne,
          addNewProcessMemoryToProcessMemoriesList sp.memorySize sp.processId w.mem, w.trace⟩
  | dispatch {w : World} {e : Task} {queues : List (List Task)} {sp : ScheduledProcess}
      {mem : Memory} {events : List Event}
      (hwait : ∀ sp, sps[w.tick.admitted]? = some sp → w.tick.time < sp.startTime)
      (hidle : w.tick.running = none) (hpop : popFirst w.tick.queues = some (e, queues))
      (hsp : sps[e.proc]? = some sp)
      (hload : loadProcessMemory e.proc e.proc w.tick.time w.mem = .ok (mem, events)) :
      World.Step P sps memsize w
        ⟨w.tick.take e queues, mem,
          w.trace ++
            (events ++ [printSimulationStatus w.tick.time e.proc sp.processId mem memsize])⟩
  | terminate {w : World} {r : Task} {mem : Memory} {events : List Event}
      (hr : w.tick.running = some r) (hfin : jobTimeOf sps r.proc ≤ r.cpu + 1)
      (hrelease : releaseProcessMemory r.proc r.proc w.mem = .ok (mem, events)) :
      World.Step P sps memsize w
        ⟨w.tick.execute.terminate r.ran, mem, w.trace ++ [.run r.proc w.tick.time] ++ events⟩
  | requeue {w : World} {r : Task} (hr : w.tick.running = some r)
      (hfin : r.cpu + 1 < jobTimeOf sps r.proc)
      (hquantum : P.exhausted r.level (r.burst + 1) = true) :
      World.Step P sps memsize w
        ⟨w.tick.execute.requeue P r.ran, w.mem,
          w.trace ++ [.run r.proc w.tick.time] ++ [.decreasePriority r.proc]⟩
  | keep {w : World} {r : Task} (hr : w.tick.running = some r)
      (hfin : r.cpu + 1 < jobTimeOf sps r.proc)
      (hquantum : P.exhausted r.level (r.burst + 1) = false) :
      World.Step P sps memsize w
        ⟨w.tick.execute, w.mem, w.trace ++ [.run r.proc w.tick.time]⟩
  | idle {w : World} {sp : ScheduledProcess} (hsp : sps[w.tick.admitted]? = some sp)
      (hwait : w.tick.time < sp.startTime) (hidle : w.tick.running = none)
      (hempty : popFirst w.tick.queues = none) :
      World.Step P sps memsize w ⟨w.tick.execute, w.mem, w.trace⟩

/-- A world that a run comes through. -/
def World.Reached (P : Policy) (sps : List ScheduledProcess) (memsize : ℤ) (w : World) : Prop :=
  Relation.ReflTransGen (World.Step P sps memsize) (World.initial P memsize) w

variable {P : Policy} {sps : List ScheduledProcess} {memsize : ℤ} {a b : Tick} {w v : World}

theorem World.Step.tick (h : World.Step P sps memsize w v) :
    Interface.Step P sps w.tick v.tick := by
  cases h with
  | arrive hsp hdue => exact .arrive hsp hdue
  | dispatch hwait hidle hpop => exact .dispatch hwait hidle hpop
  | terminate hr hfin => exact .terminate hr hfin
  | requeue hr hfin hquantum => exact .requeue hr hfin hquantum
  | keep hr hfin hquantum => exact .keep hr hfin hquantum
  | idle hsp hwait hidle hempty => exact .idle hsp hwait hidle hempty

theorem World.Reached.tick (h : World.Reached P sps memsize w) :
    Interface.Reached P sps w.tick := by
  induction h with
  | refl => exact Relation.ReflTransGen.refl
  | tail _ hstep ih => exact Relation.ReflTransGen.tail ih hstep.tick

theorem Tick.terminate_history {r : Task} (hr : a.running = some r) :
    (a.execute.terminate r.ran).history =
      a.history ++ [.run r.proc a.time] ++ [.terminate r.proc] := by
  simp [Tick.terminate, Tick.execute_history hr, Task.ran]

theorem Tick.requeue_history {r : Task} (hr : a.running = some r) :
    (a.execute.requeue P r.ran).history =
      a.history ++ [.run r.proc a.time] ++ [.decreasePriority r.proc] := by
  simp [Tick.requeue, Tick.execute_history hr, Task.ran]

theorem Tick.execute_idle_history (hidle : a.running = none) :
    a.execute.history = a.history := by
  simp [Tick.execute, hidle]

theorem Step.history (h : Step P sps a b) : ∃ more, b.history = a.history ++ more := by
  cases h with
  | arrive => exact ⟨_, rfl⟩
  | dispatch => exact ⟨_, rfl⟩
  | terminate hr => exact ⟨_, by rw [Tick.terminate_history hr, List.append_assoc]⟩
  | requeue hr => exact ⟨_, by rw [Tick.requeue_history hr, List.append_assoc]⟩
  | keep hr => exact ⟨_, Tick.execute_history hr⟩
  | idle _ _ hidle => exact ⟨[], by rw [Tick.execute_idle_history hidle, List.append_nil]⟩

/-- INTERNAL: a time step on the CPU in the trace. -/
theorem replayed_run {history : List Action} {m : Memory} {trace : List Event}
    (h : replayed sps memsize history = .ok (m, trace)) (proc : ℕ) (time : ℤ) :
    replayed sps memsize (history ++ [.run proc time]) =
      .ok (m, trace ++ [.run proc time]) :=
  replayed_snoc h _

/-- INTERNAL: the start of a history that replays without a fault does so too. -/
theorem replayed_ok_of_append {history more : List Action} {x : Memory × List Event}
    (h : replayed sps memsize (history ++ more) = .ok x) :
    ∃ m trace, replayed sps memsize history = .ok (m, trace) := by
  cases hrep : replayed sps memsize history with
  | error e =>
    rw [replayed_error_append hrep] at h
    simp at h
  | ok y => exact ⟨y.1, y.2, rfl⟩

/-- Steps between two states whose histories replay without a fault are steps between worlds. -/
theorem World.steps_of_replayed (h : Steps P sps a b) {m m' : Memory} {trace trace' : List Event}
    (ha : replayed sps memsize a.history = .ok (m, trace))
    (hb : replayed sps memsize b.history = .ok (m', trace')) :
    Relation.ReflTransGen (World.Step P sps memsize) ⟨a, m, trace⟩ ⟨b, m', trace'⟩ := by
  induction h generalizing m' trace' with
  | refl =>
    rw [ha, Except.ok.injEq, Prod.mk.injEq] at hb
    rw [hb.1, hb.2]
  | @tail b c _ hstep ih =>
    obtain ⟨more, hmore⟩ := hstep.history
    obtain ⟨m₀, trace₀, h₀⟩ := replayed_ok_of_append (hmore ▸ hb)
    have hw := ih h₀
    cases hstep with
    | @arrive sp hsp hdue =>
      rw [Tick.admitOne, replayed_snoc h₀, Action.perform, hsp] at hb
      simp only [List.append_nil, Except.ok.injEq, Prod.mk.injEq] at hb
      rw [← hb.1, ← hb.2]
      exact hw.tail (.arrive hsp hdue)
    | @dispatch e queues hwait hidle hpop =>
      rw [Tick.take, replayed_snoc h₀, Action.perform] at hb
      cases hsp : sps[e.proc]? with
      | none => simp [hsp] at hb
      | some sp =>
        rw [hsp] at hb
        cases hload : loadProcessMemory e.proc e.proc b.time m₀ with
        | error f => simp [hload] at hb
        | ok r =>
          simp only [hload, Except.ok.injEq, Prod.mk.injEq] at hb
          rw [← hb.1, ← hb.2]
          exact hw.tail (.dispatch hwait hidle hpop hsp hload)
    | @terminate r hr hfin =>
      rw [Tick.terminate_history hr, replayed_snoc (replayed_run h₀ _ _), Action.perform] at hb
      cases hrel : releaseProcessMemory r.proc r.proc m₀ with
      | error f => simp [hrel] at hb
      | ok x =>
        simp only [hrel, Except.ok.injEq, Prod.mk.injEq] at hb
        rw [← hb.1, ← hb.2]
        exact hw.tail (.terminate hr hfin hrel)
    | requeue hr hfin hquantum =>
      rw [Tick.requeue_history hr, replayed_snoc (replayed_run h₀ _ _), Action.perform] at hb
      simp only [Except.ok.injEq, Prod.mk.injEq] at hb
      rw [← hb.1, ← hb.2]
      exact hw.tail (.requeue hr hfin hquantum)
    | keep hr hfin hquantum =>
      rw [Tick.execute_history hr, replayed_run h₀, Except.ok.injEq, Prod.mk.injEq] at hb
      rw [← hb.1, ← hb.2]
      exact hw.tail (.keep hr hfin hquantum)
    | idle hsp hwait hidle hempty =>
      rw [Tick.execute_idle_history hidle, h₀, Except.ok.injEq, Prod.mk.injEq] at hb
      rw [← hb.1, ← hb.2]
      exact hw.tail (.idle hsp hwait hidle hempty)

/-- A reached state whose history replays without a fault is a reached world. -/
theorem World.reached_of_replayed (h : Interface.Reached P sps a) {m : Memory}
    {trace : List Event} (hrep : replayed sps memsize a.history = .ok (m, trace)) :
    World.Reached P sps memsize ⟨a, m, trace⟩ :=
  World.steps_of_replayed h rfl hrep

/-! ## Runners -/

/-- A loop whose runs match those of the scheduler. -/
def Runs (P : Policy) (sps : List ScheduledProcess) (memsize : ℤ)
    (body : RunnerState → Except Fault (Pass RunnerState)) (init : RunnerState) : Prop :=
  ∀ n, ∃ p, tickRun P sps n = .ok p ∧
    Matches (Represents P sps memsize) (FaultsAt sps memsize) (loop body n init) p

theorem multi_runs (q : Quanta) (sps : List ScheduledProcess) (memsize : ℤ) :
    Runs (multiPolicy q) sps memsize (multiSchedulerPass q sps memsize)
      (multiInitialState memsize) :=
  multi_run_matches q sps memsize

theorem fcfs_runs (sps : List ScheduledProcess) (memsize : ℤ) :
    Runs fcfsPolicy sps memsize (fcfsSchedulerPass sps memsize) (fcfsInitialState memsize) :=
  fcfs_run_matches sps memsize

section Runners

variable {body : RunnerState → Except Fault (Pass RunnerState)} {init s : RunnerState}

/-- INTERNAL: a state at the top of a runner's loop is a world that was reached. -/
theorem Runs.reaches (h : Runs P sps memsize body init) (hs : Reaches body init s) :
    ∃ a, (∃ n, tickRun P sps n = .ok (.again a)) ∧ Represents P sps memsize s a ∧
      World.Reached P sps memsize ⟨a, s.mem, s.trace⟩ := by
  obtain ⟨n, hn⟩ := hs
  obtain ⟨p, hp, hm⟩ := h n
  rw [hn] at hm
  cases hm with
  | again hrep =>
    exact ⟨_, ⟨n, hp⟩, hrep, World.reached_of_replayed (tickRun_reached hp) hrep.memory⟩

/-- INTERNAL: a runner either leaves its loop when the scheduler stops, or it faults. -/
theorem Runs.exits_or_faults (h : Runs P sps memsize body init) (hlevels : 0 < P.levels) :
    (∃ s a n, Exits body init s ∧ tickRun P sps n = .ok (.done a) ∧
      Represents P sps memsize s a ∧ World.Reached P sps memsize ⟨a, s.mem, s.trace⟩) ∨
    ∃ e a, Faults body init e ∧ Reached P sps a ∧ FaultsAt sps memsize a e := by
  obtain ⟨n, b, hb⟩ := tickRun_exits hlevels sps
  obtain ⟨p, hp, hm⟩ := h n
  have hpb : p = .done b := by simpa using hp.symm.trans hb
  subst hpb
  generalize hr : loop body n init = r at hm
  cases hm with
  | @done s a hrep =>
    exact Or.inl ⟨s, _, n, ⟨n, hr⟩, hb, hrep,
      World.reached_of_replayed (tickRun_reached hb) hrep.memory⟩
  | fault hF => exact Or.inr ⟨_, _, ⟨n, hr⟩, tickRun_reached hb, hF⟩

/-- INTERNAL: a fault of a runner is a fault of a history.
SOURCE: process-scheduler.c:378-424, 479-540 -/
theorem Runs.faults (h : Runs P sps memsize body init) {e : Fault} (hf : Faults body init e) :
    ∃ a, Reached P sps a ∧ FaultsAt sps memsize a e := by
  obtain ⟨n, hn⟩ := hf
  obtain ⟨p, hp, hm⟩ := h n
  rw [hn] at hm
  cases hm with
  | fault hF => exact ⟨_, tickRun_reached hp, hF⟩

end Runners

end Comp30023.Interface
