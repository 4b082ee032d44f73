import Comp30023.Library.Levels
import Comp30023.Model.ProcessScheduler

/-!
# The schedulers without pointers and without memory

What the two runners decide, one time step at a time, as a machine whose queues are
lists of tasks. It reads the start and job times of the scheduled processes and
nothing else; in particular it never looks at main memory. What it does with a process
is recorded in its `history` of `Action`s, and `replay` is what such a history means
for the memory manager and the trace of a runner.

Both runners are instances: first come, first served has one level and no quantum, the
multi-level feedback queue has three levels with a quantum each.
-/

set_option autoImplicit false

namespace Comp30023.Interface

open Comp30023.Library Comp30023.Model

/-- A process as the scheduler sees it: its number in the file, the level it is on, how
long it has been on the CPU without interruption and how long in total. -/
structure Task where
  proc : ℕ
  level : ℕ
  burst : ℤ
  cpu : ℤ
deriving Repr, DecidableEq

/-- What a scheduler does with a process. -/
inductive Action where
  | arrive (proc : ℕ)
  | dispatch (proc : ℕ) (time : ℤ)
  | run (proc : ℕ) (time : ℤ)
  | decreasePriority (proc : ℕ)
  | terminate (proc : ℕ)
deriving Repr, DecidableEq

/-- The state of a scheduler at the start of a time step. -/
structure Tick where
  time : ℤ
  admitted : ℕ
  queues : List (List Task)
  running : Option Task
  terminated : List Task
  history : List Action
deriving Repr, DecidableEq

/-- The number of levels, and when a task of a level has used up its quantum. -/
structure Policy where
  levels : ℕ
  exhausted : ℕ → ℤ → Bool

/-- First come, first served: one level and no quantum. -/
def fcfsPolicy : Policy := ⟨1, fun _ _ => false⟩

/-- The quantum of a level. -/
def levelQuantum (q : Quanta) : ℕ → ℤ
  | 0 => q.q1
  | 1 => q.q2
  | _ => q.q3

/-- The multi-level feedback queue. -/
def multiPolicy (q : Quanta) : Policy :=
  ⟨minPriority, fun level burst => decide (levelQuantum q level ≤ burst)⟩

/-- The job time of a process of the file. -/
def jobTimeOf (sps : List ScheduledProcess) (proc : ℕ) : ℤ :=
  (sps[proc]?.map ScheduledProcess.jobTime).getD 0

/-- How long a process needs the CPU: it always gets at least one time step. -/
def demand (sps : List ScheduledProcess) (proc : ℕ) : ℤ := max 1 (jobTimeOf sps proc)

/-! ## One time step -/

/-- The next process of the file enters the first level. -/
def Tick.admitOne (a : Tick) : Tick :=
  { a with
    admitted := a.admitted + 1
    queues := pushAt 0 ⟨a.admitted, 0, 0, 0⟩ a.queues
    history := a.history ++ [.arrive a.admitted] }

/-- The processes that are due enter the first level, up to the first one that is not. -/
def Tick.admitFrom : List ScheduledProcess → Tick → Tick
  | [], a => a
  | sp :: rest, a => if sp.startTime ≤ a.time then admitFrom rest a.admitOne else a

/-- The processes of the file that are due enter the first level. -/
def Tick.arrive (sps : List ScheduledProcess) (a : Tick) : Tick :=
  a.admitFrom (sps.drop a.admitted)

/-- A free CPU takes the next task; if there is none and no process is left in the file,
the scheduler stops. -/
def Tick.dispatch (sps : List ScheduledProcess) (a : Tick) : Pass Tick :=
  match a.running with
  | some _ => .again a
  | none =>
    match popFirst a.queues with
    | some (e, queues) =>
      .again { a with
        queues := queues
        running := some { e with burst := 0 }
        history := a.history ++ [.dispatch e.proc a.time] }
    | none => if sps[a.admitted]? = none then .done a else .again a

/-- The running task gets the time step. -/
def Tick.execute (a : Tick) : Tick :=
  match a.running with
  | none => { a with time := a.time + 1 }
  | some r =>
    { a with
      time := a.time + 1
      running := some { r with burst := r.burst + 1, cpu := r.cpu + 1 }
      history := a.history ++ [.run r.proc a.time] }

/-- A task that has done its job is terminated. -/
def Tick.terminate (a : Tick) (r : Task) : Tick :=
  { a with
    running := none
    terminated := a.terminated ++ [r]
    history := a.history ++ [.terminate r.proc] }

/-- A task that has used up its quantum goes to the end of the next level. -/
def Tick.requeue (P : Policy) (a : Tick) (r : Task) : Tick :=
  let level := min (r.level + 1) (P.levels - 1)
  { a with
    running := none
    queues := pushAt level { r with level := level, burst := 0 } a.queues
    history := a.history ++ [.decreasePriority r.proc] }

/-- Whether the running task leaves the CPU, and where to. -/
def Tick.finish (P : Policy) (sps : List ScheduledProcess) (a : Tick) : Tick :=
  match a.running with
  | none => a
  | some r =>
    if r.cpu ≥ jobTimeOf sps r.proc then a.terminate r
    else if P.exhausted r.level r.burst then a.requeue P r
    else a

/-- One time step of the scheduler. -/
def Tick.pass (P : Policy) (sps : List ScheduledProcess) (a : Tick) : Pass Tick :=
  match (a.arrive sps).dispatch sps with
  | .done a => .done a
  | .again a => .again (a.execute.finish P sps)

/-- The scheduler before its first time step. -/
def Tick.initial (P : Policy) : Tick :=
  { time := 0
    admitted := 0
    queues := List.replicate P.levels []
    running := none
    terminated := []
    history := [] }

/-! ## What a history means for the memory manager -/

/-- The memory operations and the events of a runner that go with one action. -/
def Action.perform (sps : List ScheduledProcess) (memsize : ℤ) :
    Action → Memory → Except Fault (Memory × List Event)
  | .arrive proc, m =>
    match sps[proc]? with
    | none => .error .invalidPointer
    | some sp => .ok (addNewProcessMemoryToProcessMemoriesList sp.memorySize sp.processId m, [])
  | .dispatch proc time, m =>
    match sps[proc]? with
    | none => .error .invalidPointer
    | some sp =>
      match loadProcessMemory proc proc time m with
      | .error e => .error e
      | .ok (m, events) =>
        .ok (m, events ++ [printSimulationStatus time proc sp.processId m memsize])
  | .run proc time, m => .ok (m, [.run proc time])
  | .decreasePriority proc, m => .ok (m, [.decreasePriority proc])
  | .terminate proc, m => releaseProcessMemory proc proc m

/-- The actions of a history one after the other, with the trace they leave. -/
def replay (sps : List ScheduledProcess) (memsize : ℤ) :
    List Action → Memory × List Event → Except Fault (Memory × List Event)
  | [], x => .ok x
  | act :: acts, (m, trace) =>
    match act.perform sps memsize m with
    | .error e => .error e
    | .ok (m', events) => replay sps memsize acts (m', trace ++ events)

/-- What a runner's memory and trace are after the history of a scheduler. -/
def replayed (sps : List ScheduledProcess) (memsize : ℤ) (history : List Action) :
    Except Fault (Memory × List Event) :=
  replay sps memsize history (newMemory memsize, [])

theorem replay_append (sps : List ScheduledProcess) (memsize : ℤ) (h₁ h₂ : List Action)
    (x : Memory × List Event) :
    replay sps memsize (h₁ ++ h₂) x =
      match replay sps memsize h₁ x with
      | .error e => .error e
      | .ok y => replay sps memsize h₂ y := by
  induction h₁ generalizing x with
  | nil => rfl
  | cons act acts ih =>
    obtain ⟨m, trace⟩ := x
    simp only [List.cons_append, replay]
    cases act.perform sps memsize m with
    | error e => rfl
    | ok r => exact ih _

/-- INTERNAL: one more action at the end of a history. -/
theorem replayed_snoc {sps : List ScheduledProcess} {memsize : ℤ} {history : List Action}
    {m : Memory} {trace : List Event} (h : replayed sps memsize history = .ok (m, trace))
    (act : Action) :
    replayed sps memsize (history ++ [act]) =
      match act.perform sps memsize m with
      | .error e => .error e
      | .ok (m', events) => .ok (m', trace ++ events) := by
  unfold replayed at h ⊢
  rw [replay_append, h]
  simp only [replay]

/-- INTERNAL: a fault in a history stays. -/
theorem replayed_error_append {sps : List ScheduledProcess} {memsize : ℤ}
    {history : List Action} {e : Fault} (h : replayed sps memsize history = .error e)
    (more : List Action) : replayed sps memsize (history ++ more) = .error e := by
  unfold replayed at h ⊢
  rw [replay_append, h]

end Comp30023.Interface
