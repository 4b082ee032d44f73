import Comp30023.Interface.TraceLog
import Comp30023.Library.Outcome

/-!
# The two runners between two time steps

The statements about runs are about states at the top of a loop. A status line is printed,
and a process memory is swapped out, in the middle of a pass. This module names the
moments of a pass: the processes that are due have been admitted, the next process has
been loaded, the time step has been executed. The memory and the trace of each of them are
those of a world that was reached, so what holds of every world holds there.

Both runners have these stages, and `Runner` is either of them.
-/

set_option autoImplicit false

namespace Comp30023.Interface

open Comp30023.Library Comp30023.Model

/-- `fcfs_scheduler_runner` or `multi_scheduler_runner` with the quanta of its levels. -/
inductive Runner where
  | fcfs
  | multi (q : Quanta)
deriving Repr, DecidableEq

namespace Runner

def policy : Runner → Policy
  | fcfs => fcfsPolicy
  | multi q => multiPolicy q

/-- The state in which the loop is entered.
SOURCE: process-scheduler.c:346-376, 441-477 -/
def initialState : Runner → ℤ → RunnerState
  | fcfs => fcfsInitialState
  | multi _ => multiInitialState

/-- The stage in which a free CPU gets the next process.
SOURCE: process-scheduler.c:385-403, 486-507 -/
def loadNext : Runner → List ScheduledProcess → ℤ → RunnerState → Except Fault (Pass RunnerState)
  | fcfs => fcfsLoadNext
  | multi _ => multiLoadNext

/-- The stage after the time step was executed.
SOURCE: process-scheduler.c:418-423, 519-539 -/
def finish : Runner → RunnerState → Except Fault RunnerState
  | fcfs => fcfsFinish
  | multi q => multiFinish q

/-- One pass through the loop.
SOURCE: process-scheduler.c:378-424, 479-540 -/
def pass : Runner → List ScheduledProcess → ℤ → RunnerState → Except Fault (Pass RunnerState)
  | fcfs => fcfsSchedulerPass
  | multi q => multiSchedulerPass q

/-- A state at the top of the loop. -/
def AtTop (R : Runner) (sps : List ScheduledProcess) (memsize : ℤ) (s : RunnerState) : Prop :=
  Reaches (R.pass sps memsize) (R.initialState memsize) s

/-- A state in which the processes that are due have been admitted. -/
def Admitted (R : Runner) (sps : List ScheduledProcess) (memsize : ℤ) (s : RunnerState) : Prop :=
  ∃ top, R.AtTop sps memsize top ∧ checkScheduledProcesses sps top = .ok s

/-- The pass goes on from the state `s` by loading the next process, if the CPU is free and
there is one, and is then in the state `loaded`. -/
def Loading (R : Runner) (sps : List ScheduledProcess) (memsize : ℤ) (s loaded : RunnerState) :
    Prop :=
  R.Admitted sps memsize s ∧ R.loadNext sps memsize s = .ok (.again loaded)

/-- A state that a pass of the runner comes through. -/
inductive Moment (R : Runner) (sps : List ScheduledProcess) (memsize : ℤ) : RunnerState → Prop
  | top {s : RunnerState} (h : R.AtTop sps memsize s) : Moment R sps memsize s
  | admitted {s : RunnerState} (h : R.Admitted sps memsize s) : Moment R sps memsize s
  | loaded {s loaded : RunnerState} (h : R.Loading sps memsize s loaded) :
      Moment R sps memsize loaded
  | executed {s loaded executed : RunnerState} (h : R.Loading sps memsize s loaded)
      (hexec : executeTimeStep loaded = .ok executed) : Moment R sps memsize executed
  | left {s : RunnerState} (h : Exits (R.pass sps memsize) (R.initialState memsize) s) :
      Moment R sps memsize s

/-- The runner prints the status line, about this process control block, while it is in the
loading stage that ends in the state `loaded`. -/
def Prints (R : Runner) (sps : List ScheduledProcess) (memsize : ℤ) (loaded : RunnerState)
    (pcb : ℕ) (line : StatusLine) : Prop :=
  ∃ s events, R.Loading sps memsize s loaded ∧ loaded.trace = s.trace ++ events ∧
    Event.status pcb line ∈ events

end Runner

variable {R : Runner} {sps : List ScheduledProcess} {memsize : ℤ} {s loaded : RunnerState}

theorem Runner.levels_pos (R : Runner) : 0 < R.policy.levels := by
  cases R with
  | fcfs => exact Nat.one_pos
  | multi q => exact (show 0 < minPriority by decide)

theorem Runner.runs (R : Runner) (sps : List ScheduledProcess) (memsize : ℤ) :
    Runs R.policy sps memsize (R.pass sps memsize) (R.initialState memsize) := by
  cases R with
  | fcfs => exact fcfs_runs sps memsize
  | multi q => exact multi_runs q sps memsize

/-- INTERNAL: both runners have the same stages.
SOURCE: process-scheduler.c:378-424, 479-540 -/
theorem Runner.pass_eq (R : Runner) (sps : List ScheduledProcess) (memsize : ℤ)
    (s : RunnerState) :
    R.pass sps memsize s = (do
      let s ← checkScheduledProcesses sps s
      match ← R.loadNext sps memsize s with
      | .done s => .ok (.done s)
      | .again s => do
        let s ← executeTimeStep s
        let s ← R.finish s
        .ok (.again s)) := by
  cases R <;> rfl

theorem Runner.loadNext_matches {a : Tick} (h : Represents R.policy sps memsize s a) :
    Matches (Represents R.policy sps memsize) (FaultsAt sps memsize)
      (R.loadNext sps memsize s) (a.dispatch sps) := by
  cases R with
  | fcfs => exact h.fcfsLoadNext
  | multi q => exact h.multiLoadNext

/-! ## The worlds of the moments -/

/-- The state of the runner represents a world that was reached. -/
def InWorld (R : Runner) (sps : List ScheduledProcess) (memsize : ℤ) (s : RunnerState)
    (a : Tick) : Prop :=
  Represents R.policy sps memsize s a ∧ World.Reached R.policy sps memsize ⟨a, s.mem, s.trace⟩

/-- INTERNAL: after the admissions nothing that is due is left in the file.
SOURCE: process-scheduler.c:268-294 -/
theorem Runner.Admitted.world (h : R.Admitted sps memsize s) :
    ∃ a, InWorld R sps memsize s a ∧
      ∀ sp, sps[a.admitted]? = some sp → a.time < sp.startTime := by
  obtain ⟨top, htop, hcheck⟩ := h
  obtain ⟨a, ⟨n, hn⟩, hrep, -⟩ := (R.runs sps memsize).reaches htop
  obtain ⟨s₁, hs₁, hrep₁⟩ := hrep.arrive R.levels_pos
  rw [hcheck, Except.ok.injEq] at hs₁
  subst hs₁
  obtain ⟨hsteps, -, hwait⟩ := a.admit_steps R.policy sps
  have hreached : Reached R.policy sps (a.arrive sps) := (tickRun_reached hn).trans hsteps
  exact ⟨a.arrive sps, ⟨hrep₁, World.reached_of_replayed hreached hrep₁.memory⟩, hwait⟩

/-- What the loading stage does: nothing, or it dispatches the next process, swapping in
its memory, and prints a status line.
SOURCE: process-scheduler.c:385-403, 486-507 -/
theorem Runner.Loading.world (h : R.Loading sps memsize s loaded) :
    ∃ a b, InWorld R sps memsize s a ∧ InWorld R sps memsize loaded b ∧
      ((b = a ∧ loaded.mem = s.mem ∧ loaded.trace = s.trace) ∨
        ∃ e queues sp events, a.running = none ∧ popFirst a.queues = some (e, queues) ∧
          b = a.take e queues ∧ sps[e.proc]? = some sp ∧
          loadProcessMemory e.proc e.proc a.time s.mem = .ok (loaded.mem, events) ∧
          loaded.trace = s.trace ++ (events ++
            [printSimulationStatus a.time e.proc sp.processId loaded.mem memsize])) := by
  obtain ⟨hadm, hload⟩ := h
  obtain ⟨a, ⟨hrep, hw⟩, hwait⟩ := hadm.world
  have hmatch := Runner.loadNext_matches hrep
  rw [hload] at hmatch
  have hsame : ∀ b, a = b → Represents R.policy sps memsize loaded b →
      loaded.mem = s.mem ∧ loaded.trace = s.trace := by
    intro b hb hrepb
    have heq := hrep.memory.symm.trans (hb ▸ hrepb.memory)
    simp only [Except.ok.injEq, Prod.mk.injEq] at heq
    exact ⟨heq.1.symm, heq.2.symm⟩
  rcases a.dispatch_cases sps with ⟨r, hr, hd⟩ | ⟨hidle, e, queues, hpop, hd⟩ |
    ⟨hidle, hempty, hleft, hd⟩ | ⟨hidle, hempty, hend, hd⟩ <;> rw [hd] at hmatch
  · cases hmatch with
    | again hb =>
      obtain ⟨hmem, htrace⟩ := hsame a rfl hb
      exact ⟨a, a, ⟨hrep, hw⟩, ⟨hb, by rw [hmem, htrace]; exact hw⟩, Or.inl ⟨rfl, hmem, htrace⟩⟩
  · cases hmatch with
    | again hb =>
      have hreached := (World.Reached.tick hw).tail (.dispatch hwait hidle hpop)
      refine ⟨a, _, ⟨hrep, hw⟩, ⟨hb, World.reached_of_replayed hreached hb.memory⟩, Or.inr ?_⟩
      have hmemory := hb.memory
      rw [Tick.take, replayed_snoc hrep.memory, Action.perform] at hmemory
      cases hsp : sps[e.proc]? with
      | none => simp [hsp] at hmemory
      | some sp =>
        rw [hsp] at hmemory
        cases hok : loadProcessMemory e.proc e.proc a.time s.mem with
        | error f => simp [hok] at hmemory
        | ok x =>
          simp only [hok, Except.ok.injEq, Prod.mk.injEq] at hmemory
          obtain ⟨hmem, htrace⟩ := hmemory
          refine ⟨e, queues, sp, x.2, hidle, hpop, rfl, hsp, ?_, ?_⟩
          · rw [hok, ← hmem]
          · rw [← htrace, ← hmem]
  · cases hmatch with
    | again hb =>
      obtain ⟨hmem, htrace⟩ := hsame a rfl hb
      exact ⟨a, a, ⟨hrep, hw⟩, ⟨hb, by rw [hmem, htrace]; exact hw⟩, Or.inl ⟨rfl, hmem, htrace⟩⟩
  · cases hmatch

/-- INTERNAL: executing a time step leaves main memory alone.
SOURCE: process-scheduler.c:405-413, 509-517 -/
theorem executeTimeStep_frame {executed : RunnerState} (h : executeTimeStep s = .ok executed) :
    executed.mem = s.mem ∧ executed.time = s.time + 1 ∧
      (executed.trace = s.trace ∨ ∃ pcb, executed.trace = s.trace ++ [.run pcb s.time]) := by
  unfold executeTimeStep at h
  cases hr : s.running with
  | none =>
    simp only [hr, Except.ok.injEq] at h
    subst h
    exact ⟨rfl, rfl, Or.inl rfl⟩
  | some pcb =>
    simp only [hr] at h
    obtain ⟨pcbs, -, hend⟩ := bind_eq_ok h
    rw [Except.ok.injEq] at hend
    subst hend
    exact ⟨rfl, rfl, Or.inr ⟨pcb, rfl⟩⟩

/-- In every moment of a pass main memory is that of a world that was reached; the clock and
the trace are those of that world, or one executed time step further. -/
theorem Runner.Moment.world (h : R.Moment sps memsize s) :
    ∃ w, World.Reached R.policy sps memsize w ∧ s.mem = w.mem ∧
      ((s.time = w.tick.time ∧ s.trace = w.trace) ∨
        (s.time = w.tick.time + 1 ∧
          (s.trace = w.trace ∨ ∃ pcb, s.trace = w.trace ++ [.run pcb w.tick.time]))) := by
  cases h with
  | top h =>
    obtain ⟨a, -, hrep, hw⟩ := (R.runs sps memsize).reaches h
    exact ⟨_, hw, rfl, Or.inl ⟨hrep.time, rfl⟩⟩
  | admitted h =>
    obtain ⟨a, ⟨hrep, hw⟩, -⟩ := h.world
    exact ⟨_, hw, rfl, Or.inl ⟨hrep.time, rfl⟩⟩
  | loaded h =>
    obtain ⟨a, b, -, ⟨hrep, hw⟩, -⟩ := h.world
    exact ⟨_, hw, rfl, Or.inl ⟨hrep.time, rfl⟩⟩
  | executed h hexec =>
    obtain ⟨a, b, -, ⟨hrep, hw⟩, -⟩ := h.world
    obtain ⟨hmem, htime, htrace⟩ := executeTimeStep_frame hexec
    rw [hrep.time] at htime htrace
    exact ⟨_, hw, hmem, Or.inr ⟨htime, htrace⟩⟩
  | left h =>
    obtain ⟨n, hn⟩ := h
    obtain ⟨p, hp, hm⟩ := R.runs sps memsize n
    rw [hn] at hm
    cases hm with
    | done hrep =>
      exact ⟨_, World.reached_of_replayed (tickRun_reached hp) hrep.memory, rfl,
        Or.inl ⟨hrep.time, rfl⟩⟩

/-- INTERNAL: in every moment of a pass the heap is that of a state of the scheduler. -/
theorem Runner.Moment.represents (h : R.Moment sps memsize s) :
    ∃ a, Represents R.policy sps memsize s a := by
  cases h with
  | top h =>
    obtain ⟨a, -, hrep, -⟩ := (R.runs sps memsize).reaches h
    exact ⟨a, hrep⟩
  | admitted h =>
    obtain ⟨a, ⟨hrep, -⟩, -⟩ := h.world
    exact ⟨a, hrep⟩
  | loaded h =>
    obtain ⟨a, b, -, ⟨hrep, -⟩, -⟩ := h.world
    exact ⟨b, hrep⟩
  | executed h hexec =>
    obtain ⟨a, b, -, ⟨hrep, -⟩, -⟩ := h.world
    obtain ⟨t, ht, hrep'⟩ := hrep.execute
    rw [hexec, Except.ok.injEq] at ht
    exact ⟨_, ht ▸ hrep'⟩
  | left h =>
    obtain ⟨n, hn⟩ := h
    obtain ⟨p, hp, hm⟩ := R.runs sps memsize n
    rw [hn] at hm
    cases hm with
    | done hrep => exact ⟨_, hrep⟩

/-! ## Where the status lines come from -/

/-- The state `t` follows `s` without a status line. -/
def PrintsNothing (s t : RunnerState) : Prop :=
  ∃ events, t.trace = s.trace ++ events ∧ ∀ pcb line, Event.status pcb line ∉ events

theorem PrintsNothing.refl (s : RunnerState) : PrintsNothing s s := ⟨[], by simp, by simp⟩

/-- INTERNAL: admitting processes prints nothing.
SOURCE: process-scheduler.c:268-294 -/
theorem checkScheduledProcesses_trace {t : RunnerState}
    (h : checkScheduledProcesses sps s = .ok t) : t.trace = s.trace := by
  unfold checkScheduledProcesses at h
  obtain ⟨head, -, h⟩ := bind_eq_ok h
  obtain ⟨x, -, h⟩ := bind_eq_ok h
  rw [Except.ok.injEq] at h
  subst h
  rfl

/-- INTERNAL: executing a time step prints nothing. -/
theorem printsNothing_execute {t : RunnerState} (h : executeTimeStep s = .ok t) :
    PrintsNothing s t := by
  obtain ⟨-, -, htrace | ⟨pcb, htrace⟩⟩ := executeTimeStep_frame h
  · exact ⟨[], by simpa using htrace, by simp⟩
  · exact ⟨_, htrace, by simp⟩

/-- INTERNAL: terminating the running process prints nothing.
SOURCE: process-scheduler.c:226-242, 418-423, 524-529 -/
theorem printsNothing_terminate {t : RunnerState} {pcb : ℕ}
    (h : terminateRunning pcb s = .ok t) : PrintsNothing s t := by
  unfold terminateRunning at h
  obtain ⟨⟨pcbs, mem, events⟩, hterm, h⟩ := bind_eq_ok h
  obtain ⟨x, -, h⟩ := bind_eq_ok h
  rw [Except.ok.injEq] at h
  subst h
  refine ⟨events, rfl, ?_⟩
  unfold terminatePcb at hterm
  obtain ⟨b, -, hterm⟩ := bind_eq_ok hterm
  obtain ⟨⟨mem', events'⟩, hrel, hterm⟩ := bind_eq_ok hterm
  obtain ⟨pcbs', -, hterm⟩ := bind_eq_ok hterm
  simp only [Except.ok.injEq, Prod.mk.injEq] at hterm
  rw [← hterm.2.2]
  rcases releaseProcessMemory_events hrel with rfl | rfl <;> simp

/-- INTERNAL: moving the running process to a lower queue prints nothing.
SOURCE: process-scheduler.c:533-538 -/
theorem printsNothing_requeue {t : RunnerState} {pcb : ℕ}
    (h : requeueRunning pcb s = .ok t) : PrintsNothing s t := by
  unfold requeueRunning at h
  obtain ⟨pcbs, -, h⟩ := bind_eq_ok h
  obtain ⟨b, -, h⟩ := bind_eq_ok h
  cases hprio : b.priority with
  | zero => simp [hprio] at h
  | succ level =>
    simp only [hprio] at h
    obtain ⟨readyQ, -, h⟩ := bind_eq_ok h
    obtain ⟨x, -, h⟩ := bind_eq_ok h
    rw [Except.ok.injEq] at h
    subst h
    exact ⟨_, rfl, by simp⟩

/-- INTERNAL: the last stage of a pass prints nothing.
SOURCE: process-scheduler.c:418-423, 519-539 -/
theorem Runner.printsNothing_finish {t : RunnerState} (h : R.finish s = .ok t) :
    PrintsNothing s t := by
  cases R with
  | fcfs =>
    simp only [Runner.finish, fcfsFinish] at h
    cases hr : s.running with
    | none =>
      simp only [hr, Except.ok.injEq] at h
      exact h ▸ PrintsNothing.refl s
    | some pcb =>
      simp only [hr] at h
      obtain ⟨b, -, h⟩ := bind_eq_ok h
      split_ifs at h
      · exact printsNothing_terminate h
      · exact Except.ok.inj h ▸ PrintsNothing.refl s
  | multi q =>
    simp only [Runner.finish, multiFinish] at h
    cases hr : s.running with
    | none =>
      simp only [hr, Except.ok.injEq] at h
      exact h ▸ PrintsNothing.refl s
    | some pcb =>
      simp only [hr] at h
      obtain ⟨b, -, h⟩ := bind_eq_ok h
      split_ifs at h
      · exact printsNothing_terminate h
      · exact printsNothing_requeue h
      · exact Except.ok.inj h ▸ PrintsNothing.refl s

/-- INTERNAL: a status line was there before, when nothing was printed since. -/
theorem PrintsNothing.mem {t : RunnerState} (h : PrintsNothing s t) {pcb : ℕ} {line : StatusLine}
    (hline : Event.status pcb line ∈ t.trace) : Event.status pcb line ∈ s.trace := by
  obtain ⟨events, htrace, hnone⟩ := h
  rw [htrace, List.mem_append] at hline
  exact hline.resolve_right (hnone pcb line)

/-- INTERNAL: the loading stage does not forget what was printed, and what it prints is a
line of this stage. -/
theorem Runner.Loading.mem (h : R.Loading sps memsize s loaded) {pcb : ℕ} {line : StatusLine}
    (hline : Event.status pcb line ∈ loaded.trace) :
    Event.status pcb line ∈ s.trace ∨ R.Prints sps memsize loaded pcb line := by
  obtain ⟨a, b, -, -, ⟨-, -, htrace⟩ | ⟨e, queues, sp, events, -, -, -, -, -, htrace⟩⟩ := h.world
  · rw [htrace] at hline
    exact Or.inl hline
  · rw [htrace, List.mem_append] at hline
    rcases hline with hline | hline
    · exact Or.inl hline
    · exact Or.inr ⟨s, _, h, htrace, hline⟩

/-- INTERNAL: when the loading stage leaves the loop, nothing has happened.
SOURCE: process-scheduler.c:398-402, 502-506 -/
theorem Runner.loadNext_done (hadm : R.Admitted sps memsize s) {t : RunnerState}
    (h : R.loadNext sps memsize s = .ok (.done t)) : t.trace = s.trace := by
  obtain ⟨a, ⟨hrep, -⟩, -⟩ := hadm.world
  have hmatch := Runner.loadNext_matches hrep
  rw [h] at hmatch
  rcases a.dispatch_cases sps with ⟨-, -, hd⟩ | ⟨-, e, queues, -, hd⟩ | ⟨-, -, -, hd⟩ |
    ⟨-, -, -, hd⟩ <;> rw [hd] at hmatch <;> cases hmatch
  rename_i hb
  have heq := hrep.memory.symm.trans hb.memory
  simp only [Except.ok.injEq, Prod.mk.injEq] at heq
  exact heq.2.symm

/-- INTERNAL: the stages of a pass that goes round again.
SOURCE: process-scheduler.c:378-424, 479-540 -/
theorem Runner.AtTop.stages {top t : RunnerState} {p : Pass RunnerState}
    (htop : R.AtTop sps memsize top) (h : R.pass sps memsize top = .ok p) (ht : p.state = t) :
    ∃ s, R.Admitted sps memsize s ∧ s.trace = top.trace ∧
      (t.trace = s.trace ∨ ∃ loaded, R.Loading sps memsize s loaded ∧ PrintsNothing loaded t) := by
  rw [R.pass_eq] at h
  obtain ⟨s, hcheck, h⟩ := bind_eq_ok h
  obtain ⟨x, hload, h⟩ := bind_eq_ok h
  have hadm : R.Admitted sps memsize s := ⟨top, htop, hcheck⟩
  refine ⟨s, hadm, checkScheduledProcesses_trace hcheck, ?_⟩
  cases x with
  | done u =>
    simp only [Except.ok.injEq] at h
    subst h ht
    exact Or.inl (Runner.loadNext_done hadm hload)
  | again loaded =>
    simp only at h
    obtain ⟨executed, hexec, h⟩ := bind_eq_ok h
    obtain ⟨u, hfin, h⟩ := bind_eq_ok h
    rw [Except.ok.injEq] at h
    subst h ht
    refine Or.inr ⟨loaded, ⟨hadm, hload⟩, ?_⟩
    obtain ⟨e₁, h₁, hn₁⟩ := printsNothing_execute hexec
    obtain ⟨e₂, h₂, hn₂⟩ := Runner.printsNothing_finish hfin
    refine ⟨e₁ ++ e₂, ?_, ?_⟩
    · show u.trace = _
      rw [h₂, h₁, List.append_assoc]
    · intro pcb line hmem
      rcases List.mem_append.mp hmem with hmem | hmem
      · exact hn₁ pcb line hmem
      · exact hn₂ pcb line hmem

/-- INTERNAL: a status line in the trace after a pass was there before or is one of its
loading stage. -/
theorem Runner.AtTop.printed_of_pass {top t : RunnerState} {p : Pass RunnerState}
    (htop : R.AtTop sps memsize top) (h : R.pass sps memsize top = .ok p) (ht : p.state = t)
    {pcb : ℕ} {line : StatusLine} (hline : Event.status pcb line ∈ t.trace) :
    Event.status pcb line ∈ top.trace ∨ ∃ loaded, R.Prints sps memsize loaded pcb line := by
  obtain ⟨s, hadm, hs, htrace | ⟨loaded, hload, hnothing⟩⟩ := htop.stages h ht
  · rw [htrace, hs] at hline
    exact Or.inl hline
  · rcases hload.mem (hnothing.mem hline) with hold | hnew
    · exact Or.inl (hs ▸ hold)
    · exact Or.inr ⟨loaded, hnew⟩

/-- Every status line in the trace of a run was printed in the loading stage of some pass.
SOURCE: process-scheduler.c:391-395, 495-499 -/
theorem Runner.AtTop.printed {top : RunnerState} (htop : R.AtTop sps memsize top) {pcb : ℕ}
    {line : StatusLine} (hline : Event.status pcb line ∈ top.trace) :
    ∃ loaded, R.Prints sps memsize loaded pcb line := by
  obtain ⟨n, hn⟩ := htop
  induction n generalizing top with
  | zero =>
    simp only [loop, Except.ok.injEq, Pass.again.injEq] at hn
    subst hn
    cases R <;> simp [Runner.initialState, fcfsInitialState, multiInitialState,
      initialRunnerState] at hline
  | succ n ih =>
    obtain ⟨before, hbefore, hpass⟩ := loop_succ_again hn
    have htop' : R.AtTop sps memsize before := ⟨n, hbefore⟩
    rcases htop'.printed_of_pass hpass rfl hline with hold | hnew
    · exact ih hold hbefore
    · exact hnew

/-- The same when the loop has been left. -/
theorem Runner.printed_of_exits (h : Exits (R.pass sps memsize) (R.initialState memsize) s)
    {pcb : ℕ} {line : StatusLine} (hline : Event.status pcb line ∈ s.trace) :
    ∃ loaded, R.Prints sps memsize loaded pcb line := by
  obtain ⟨n, hn⟩ := h
  obtain ⟨m, top, -, htop, hpass⟩ := exits_last hn
  have htop' : R.AtTop sps memsize top := ⟨m, htop⟩
  rcases htop'.printed_of_pass hpass rfl hline with hold | hnew
  · exact htop'.printed hold
  · exact hnew

/-- The same in every moment of a pass. -/
theorem Runner.Moment.printed (h : R.Moment sps memsize s) {pcb : ℕ} {line : StatusLine}
    (hline : Event.status pcb line ∈ s.trace) :
    ∃ loaded, R.Prints sps memsize loaded pcb line := by
  have hadmitted : ∀ {s}, R.Admitted sps memsize s → Event.status pcb line ∈ s.trace →
      ∃ loaded, R.Prints sps memsize loaded pcb line := by
    rintro s ⟨top, htop, hcheck⟩ hline
    rw [checkScheduledProcesses_trace hcheck] at hline
    exact htop.printed hline
  have hloaded : ∀ {s t}, R.Loading sps memsize s t → Event.status pcb line ∈ t.trace →
      ∃ loaded, R.Prints sps memsize loaded pcb line := by
    intro s t hload hline
    rcases hload.mem hline with hold | hnew
    · exact hadmitted hload.1 hold
    · exact ⟨t, hnew⟩
  cases h with
  | top h => exact h.printed hline
  | admitted h => exact hadmitted h hline
  | loaded h => exact hloaded h hline
  | executed h hexec => exact hloaded h ((printsNothing_execute hexec).mem hline)
  | left h => exact Runner.printed_of_exits h hline

end Comp30023.Interface
