import Comp30023.Interface.World

/-!
# What a trace records of the scheduling

A status line is printed for every dispatch and for nothing else, and every time step on
the CPU leaves one `run` event. So both can be read off the history of the scheduler,
which knows nothing about main memory.
-/

set_option autoImplicit false

namespace Comp30023.Interface

open Comp30023.Library Comp30023.Model

/-- The dispatches of a history: when, and of which process. -/
def dispatches (history : List Action) : List (ℤ × ℕ) :=
  history.filterMap fun
    | .dispatch proc time => some (time, proc)
    | _ => none

/-- The time steps of a history in which a process was on the CPU. -/
def executed (history : List Action) : List (ℕ × ℤ) :=
  history.filterMap fun
    | .run proc time => some (proc, time)
    | _ => none

/-- The status lines of a trace: the time, the process control block and the printed id. -/
def statuses (trace : List Event) : List (ℤ × ℕ × ℤ) :=
  trace.filterMap fun
    | .status pcb line => some (line.time, pcb, line.processId)
    | _ => none

/-- The time steps of a trace in which a process was on the CPU. -/
def runTimes (trace : List Event) : List (ℕ × ℤ) :=
  trace.filterMap fun
    | .run pcb time => some (pcb, time)
    | _ => none

/-- The id of a process of the file. -/
def processIdOf (sps : List ScheduledProcess) (proc : ℕ) : ℤ :=
  (sps[proc]?.map ScheduledProcess.processId).getD 0

variable {P : Policy} {sps : List ScheduledProcess} {memsize : ℤ} {a b : Tick} {w : World}

/-- INTERNAL: loading a process leaves only `swapIn` events.
SOURCE: process-scheduler.c:186-192 -/
theorem loadProcessMemory_events {pcb ptr : ℕ} {time : ℤ} {m m' : Memory} {events : List Event}
    (h : loadProcessMemory pcb ptr time m = .ok (m', events)) :
    events = [] ∨ ∃ victims, events = [.swapIn pcb time victims] := by
  unfold loadProcessMemory at h
  cases hfind : m.find ptr with
  | none => simp [hfind] at h
  | some p =>
    simp only [hfind] at h
    split at h
    · cases hsw : swapInProcessMemory ptr time m with
      | error e => simp [hsw, bind, Except.bind] at h
      | ok x =>
        simp only [hsw, bind, Except.bind, Except.ok.injEq, Prod.mk.injEq] at h
        exact Or.inr ⟨_, h.2.symm⟩
    · simp only [Except.ok.injEq, Prod.mk.injEq] at h
      exact Or.inl h.2.symm

/-- INTERNAL: releasing a process leaves only `release` events.
SOURCE: process-scheduler.c:229-235 -/
theorem releaseProcessMemory_events {pcb ptr : ℕ} {m m' : Memory} {events : List Event}
    (h : releaseProcessMemory pcb ptr m = .ok (m', events)) :
    events = [] ∨ events = [.release pcb] := by
  unfold releaseProcessMemory at h
  cases hfind : m.find ptr with
  | none => simp [hfind] at h
  | some p =>
    simp only [hfind] at h
    split at h
    · simp only [Except.ok.injEq, Prod.mk.injEq] at h
      exact Or.inl h.2.symm
    · cases hsw : swapOutProcessMemoryByProcessMemory ptr m with
      | error e => simp [hsw, bind, Except.bind] at h
      | ok x =>
        simp only [hsw, bind, Except.bind, Except.ok.injEq, Prod.mk.injEq] at h
        exact Or.inr h.2.symm

/-- The status lines of a run are its dispatches.
SOURCE: process-scheduler.c:391-395, 495-499 -/
theorem statuses_of_reached (h : World.Reached P sps memsize w) :
    statuses w.trace =
      (dispatches w.tick.history).map fun x => (x.1, x.2, processIdOf sps x.2) := by
  induction h with
  | refl => rfl
  | tail _ hstep ih =>
    cases hstep with
    | arrive => simpa [Tick.admitOne, dispatches] using ih
    | dispatch _ _ _ hsp hload =>
      rcases loadProcessMemory_events hload with rfl | ⟨victims, rfl⟩ <;>
        simp [Tick.take, dispatches, statuses, printSimulationStatus, processIdOf, hsp] at ih ⊢ <;>
        exact ih
    | terminate hr _ hrel =>
      rw [Tick.terminate_history hr]
      rcases releaseProcessMemory_events hrel with rfl | rfl <;>
        simpa [dispatches, statuses] using ih
    | requeue hr =>
      rw [Tick.requeue_history hr]
      simpa [dispatches, statuses] using ih
    | keep hr =>
      rw [Tick.execute_history hr]
      simpa [dispatches, statuses] using ih
    | idle _ _ hidle =>
      rw [Tick.execute_idle_history hidle]
      exact ih

/-- INTERNAL: the printed times and ids, without the blocks they are about. -/
theorem statusLines_eq_statuses (trace : List Event) :
    (statusLines trace).map (fun line => (line.time, line.processId)) =
      (statuses trace).map fun x => (x.1, x.2.2) := by
  unfold statusLines statuses
  rw [List.map_filterMap, List.map_filterMap]
  congr 1
  funext event
  cases event <;> rfl

/-- The `run` events of a trace are the time steps of the history.
SOURCE: process-scheduler.c:405-413, 509-517 -/
theorem runTimes_of_reached (h : World.Reached P sps memsize w) :
    runTimes w.trace = executed w.tick.history := by
  induction h with
  | refl => rfl
  | tail _ hstep ih =>
    cases hstep with
    | arrive => simpa [Tick.admitOne, executed] using ih
    | dispatch _ _ _ hsp hload =>
      rcases loadProcessMemory_events hload with rfl | ⟨victims, rfl⟩ <;>
        simpa [Tick.take, executed, runTimes, printSimulationStatus] using ih
    | terminate hr _ hrel =>
      rw [Tick.terminate_history hr]
      rcases releaseProcessMemory_events hrel with rfl | rfl <;>
        simpa [executed, runTimes] using ih
    | requeue hr =>
      rw [Tick.requeue_history hr]
      simpa [executed, runTimes] using ih
    | keep hr =>
      rw [Tick.execute_history hr]
      simpa [executed, runTimes] using ih
    | idle _ _ hidle =>
      rw [Tick.execute_idle_history hidle]
      exact ih

/-! ## The runs of a history -/

/-- INTERNAL: what a step does to the record of time steps on the CPU. -/
theorem Step.executed_cases (h : Step P sps a b) :
    (b.time = a.time ∧ executed b.history = executed a.history) ∨
    (b.time = a.time + 1 ∧ ∃ r, a.running = some r ∧
      executed b.history = executed a.history ++ [(r.proc, a.time)]) ∨
    (b.time = a.time + 1 ∧ a.load = 0 ∧ executed b.history = executed a.history) := by
  cases h with
  | arrive => exact Or.inl ⟨rfl, by simp [Tick.admitOne, executed]⟩
  | dispatch => exact Or.inl ⟨rfl, by simp [Tick.take, executed]⟩
  | terminate hr =>
    refine Or.inr (Or.inl ⟨a.execute_time, _, hr, ?_⟩)
    rw [Tick.terminate_history hr]
    simp [executed]
  | requeue hr =>
    refine Or.inr (Or.inl ⟨a.execute_time, _, hr, ?_⟩)
    rw [Tick.requeue_history hr]
    simp [executed]
  | keep hr =>
    refine Or.inr (Or.inl ⟨a.execute_time, _, hr, ?_⟩)
    rw [Tick.execute_history hr]
    simp [executed]
  | idle _ _ hidle hempty =>
    refine Or.inr (Or.inr ⟨a.execute_time, Tick.load_eq_zero.mpr ⟨hidle, hempty⟩, ?_⟩)
    rw [Tick.execute_idle_history hidle]

end Comp30023.Interface
