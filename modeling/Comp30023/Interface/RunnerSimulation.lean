import Comp30023.Interface.RunnerStages

/-!
# The runners are the tick scheduler

One pass of either runner is one time step of the tick scheduler with the runner's
policy, and a run of any length is a run of it: as long as replaying the history does
not fault, the runner is in a state that represents the scheduler's, and when it does
fault, the runner has stopped with the same fault. `multi_run_matches` and
`fcfs_run_matches` are the only facts about the heap that the analysis uses.
-/

set_option autoImplicit false

namespace Comp30023.Interface

open Comp30023.Library Comp30023.Model

variable {P : Policy} {sps : List ScheduledProcess} {memsize : ℤ} {s : RunnerState} {a : Tick}

/-! ## The history only grows -/

theorem Tick.admitFrom_history (rest : List ScheduledProcess) (a : Tick) :
    ∃ more, (a.admitFrom rest).history = a.history ++ more := by
  induction rest generalizing a with
  | nil => exact ⟨[], by simp [Tick.admitFrom]⟩
  | cons sp rest ih =>
    unfold Tick.admitFrom
    split
    · obtain ⟨more, hmore⟩ := ih a.admitOne
      exact ⟨[.arrive a.admitted] ++ more, by rw [hmore, Tick.admitOne, List.append_assoc]⟩
    · exact ⟨[], by simp⟩

theorem Tick.execute_finish_history (P : Policy) (sps : List ScheduledProcess) (a : Tick) :
    ∃ more, (a.execute.finish P sps).history = a.history ++ more := by
  have hexec : ∃ more, a.execute.history = a.history ++ more := by
    unfold Tick.execute
    cases a.running with
    | none => exact ⟨[], by simp⟩
    | some r => exact ⟨_, rfl⟩
  have hfin : ∀ b : Tick, ∃ more, (b.finish P sps).history = b.history ++ more := by
    intro b
    unfold Tick.finish
    cases b.running with
    | none => exact ⟨[], by simp⟩
    | some r =>
      simp only
      split_ifs
      · exact ⟨_, rfl⟩
      · exact ⟨_, rfl⟩
      · exact ⟨[], by simp⟩
  obtain ⟨m₁, h₁⟩ := hexec
  obtain ⟨m₂, h₂⟩ := hfin a.execute
  exact ⟨m₁ ++ m₂, by rw [h₂, h₁, List.append_assoc]⟩

theorem Tick.dispatch_history (sps : List ScheduledProcess) (a : Tick) :
    ∃ more, (a.dispatch sps).state.history = a.history ++ more := by
  rcases a.dispatch_cases sps with ⟨-, -, hd⟩ | ⟨-, e, queues, -, hd⟩ | ⟨-, -, -, hd⟩ |
    ⟨-, -, -, hd⟩ <;> rw [hd]
  · exact ⟨[], by simp [Pass.state]⟩
  · exact ⟨_, rfl⟩
  · exact ⟨[], by simp [Pass.state]⟩
  · exact ⟨[], by simp [Pass.state]⟩

/-- INTERNAL: what a time step adds to the history comes after what was there. -/
theorem Tick.pass_history (P : Policy) (sps : List ScheduledProcess) (a : Tick) :
    ∃ more, (a.pass P sps).state.history = a.history ++ more := by
  obtain ⟨m₁, h₁⟩ := Tick.admitFrom_history (sps.drop a.admitted) a
  obtain ⟨m₂, h₂⟩ := Tick.dispatch_history sps (a.arrive sps)
  unfold Tick.pass
  cases hd : (a.arrive sps).dispatch sps with
  | done b =>
    rw [hd] at h₂
    exact ⟨m₁ ++ m₂, by rw [← List.append_assoc, ← h₁]; exact h₂⟩
  | again b =>
    rw [hd] at h₂
    obtain ⟨m₃, h₃⟩ := Tick.execute_finish_history P sps b
    refine ⟨m₁ ++ m₂ ++ m₃, ?_⟩
    have hb : b.history = a.history ++ (m₁ ++ m₂) := by
      rw [← List.append_assoc, ← h₁]
      exact h₂
    show (b.execute.finish P sps).history = _
    rw [h₃, hb, List.append_assoc]

/-! ## One pass -/

/-- INTERNAL: a fault stays a fault. -/
theorem FaultsAt.pass {e : Fault} (h : FaultsAt sps memsize a e) :
    FaultsAt sps memsize (a.pass P sps).state e := by
  obtain ⟨more, hmore⟩ := a.pass_history P sps
  unfold FaultsAt
  rw [hmore]
  exact replayed_error_append h more

/-- INTERNAL: a pass made of admission, some dispatch stage, execution and some finish stage
follows the scheduler when these two stages do.
SOURCE: process-scheduler.c:378-424, 479-540 -/
theorem pass_matches {load : RunnerState → Except Fault (Pass RunnerState)}
    {fin : RunnerState → Except Fault RunnerState} (hlevels : 0 < P.levels)
    (hload : ∀ s a, Represents P sps memsize s a →
      Matches (Represents P sps memsize) (FaultsAt sps memsize) (load s) (a.dispatch sps))
    (hfin : ∀ s a, Represents P sps memsize s a →
      Matches (Represents P sps memsize) (FaultsAt sps memsize) ((fin s).map Pass.again)
        (.again (a.finish P sps)))
    (h : Represents P sps memsize s a) :
    Matches (Represents P sps memsize) (FaultsAt sps memsize)
      (do
        let s ← checkScheduledProcesses sps s
        match ← load s with
        | .done s => .ok (.done s)
        | .again s => do
          let s ← executeTimeStep s
          let s ← fin s
          .ok (.again s))
      (a.pass P sps) := by
  obtain ⟨s₁, hcheck, h₁⟩ := h.arrive hlevels
  have hl := hload s₁ (a.arrive sps) h₁
  simp only [hcheck, bind, Except.bind]
  unfold Tick.pass
  generalize load s₁ = r at hl
  generalize (a.arrive sps).dispatch sps = p at hl
  cases hl with
  | done h₂ => exact Matches.done h₂
  | fault hF =>
    cases p with
    | done b => exact Matches.fault hF
    | again b =>
      obtain ⟨more, hmore⟩ := b.execute_finish_history P sps
      refine Matches.fault ?_
      show replayed sps memsize (b.execute.finish P sps).history = _
      rw [hmore]
      exact replayed_error_append hF more
  | again h₂ =>
    rename_i s₂ b
    obtain ⟨s₃, hexec, h₃⟩ := h₂.execute
    have hf := hfin s₃ b.execute h₃
    simp only [hexec]
    cases hs : fin s₃ with
    | error e =>
      rw [hs] at hf
      exact hf
    | ok s₄ =>
      rw [hs] at hf
      exact hf

/-- INTERNAL: the finish test of the source is that of the scheduler.
SOURCE: process-scheduler.c:244-247 -/
theorem isPcbFinished_iff {sp : ScheduledProcess} {r : Task} (hsp : sps[r.proc]? = some sp)
    {b : ProcessControlBlock} (hcpu : b.cpuTime = r.cpu) (hjob : b.jobTime = sp.jobTime) :
    isPcbFinished b = true ↔ r.cpu ≥ jobTimeOf sps r.proc := by
  simp [isPcbFinished, jobTimeOf, hsp, hcpu, hjob]

/-- INTERNAL: the finish stage of first come, first served.
SOURCE: process-scheduler.c:418-423 -/
theorem Represents.fcfsFinish (h : Represents fcfsPolicy sps memsize s a) :
    Matches (Represents fcfsPolicy sps memsize) (FaultsAt sps memsize)
      ((fcfsFinish s).map Pass.again) (.again (a.finish fcfsPolicy sps)) := by
  unfold Model.fcfsFinish Tick.finish
  cases hr : a.running with
  | none =>
    rw [h.running, hr]
    exact Matches.again h
  | some r =>
    obtain ⟨sp, hsp, hget⟩ := h.running_block hr
    rw [h.running, hr]
    simp only [Option.map_some, getPcb_ok hget, bind, Except.bind]
    by_cases hfin : r.cpu ≥ jobTimeOf sps r.proc
    · rw [if_pos hfin, if_pos ((isPcbFinished_iff hsp rfl rfl).mpr hfin)]
      exact h.terminate hr
    · rw [if_neg hfin, if_neg fun hf => hfin ((isPcbFinished_iff hsp rfl rfl).mp hf)]
      exact Matches.again h

/-- INTERNAL: the quantum test of the source is that of the scheduler.
SOURCE: process-scheduler.c:320-342 -/
theorem isQuantumExhaustedByPcb_eq (q : Quanta) {r : Task} {b : ProcessControlBlock}
    (hprio : b.priority = r.level + 1) (hburst : b.burstTime = r.burst) :
    isQuantumExhaustedByPcb q b = (multiPolicy q).exhausted r.level r.burst := by
  have hquantum : getQuantumByPcb q b = levelQuantum q r.level := by
    unfold getQuantumByPcb levelQuantum
    rw [hprio]
    match r.level with
    | 0 => rfl
    | 1 => rfl
    | 2 => rfl
    | n + 3 => rfl
  simp [isQuantumExhaustedByPcb, multiPolicy, hquantum, hburst]

/-- INTERNAL: the finish stage of the multi-level feedback queue.
SOURCE: process-scheduler.c:519-539 -/
theorem Represents.multiFinish {q : Quanta} (h : Represents (multiPolicy q) sps memsize s a) :
    Matches (Represents (multiPolicy q) sps memsize) (FaultsAt sps memsize)
      ((multiFinish q s).map Pass.again) (.again (a.finish (multiPolicy q) sps)) := by
  unfold Model.multiFinish Tick.finish
  cases hr : a.running with
  | none =>
    rw [h.running, hr]
    exact Matches.again h
  | some r =>
    obtain ⟨sp, hsp, hget⟩ := h.running_block hr
    rw [h.running, hr]
    simp only [Option.map_some, getPcb_ok hget, bind, Except.bind]
    by_cases hfin : r.cpu ≥ jobTimeOf sps r.proc
    · rw [if_pos hfin, if_pos ((isPcbFinished_iff hsp rfl rfl).mpr hfin)]
      exact h.terminate hr
    · rw [if_neg hfin, if_neg fun hf => hfin ((isPcbFinished_iff hsp rfl rfl).mp hf),
        isQuantumExhaustedByPcb_eq q (r := r) rfl rfl]
      by_cases hq : (multiPolicy q).exhausted r.level r.burst = true
      · rw [if_pos hq, if_pos hq]
        obtain ⟨s', hreq, h'⟩ := h.requeue rfl hr
        rw [hreq]
        exact Matches.again h'
      · rw [if_neg hq, if_neg hq]
        exact Matches.again h

/-- One pass of `multi_scheduler_runner` is one time step of the scheduler.
SOURCE: process-scheduler.c:479-540 -/
theorem multi_pass_matches {q : Quanta} (h : Represents (multiPolicy q) sps memsize s a) :
    Matches (Represents (multiPolicy q) sps memsize) (FaultsAt sps memsize)
      (multiSchedulerPass q sps memsize s) (a.pass (multiPolicy q) sps) :=
  pass_matches (show 0 < minPriority by decide) (fun _ _ h => h.multiLoadNext)
    (fun _ _ h => h.multiFinish) h

/-- INTERNAL: the loading stage of first come, first served.
SOURCE: process-scheduler.c:385-403 -/
theorem Represents.fcfsLoadNext (h : Represents fcfsPolicy sps memsize s a) :
    Matches (Represents fcfsPolicy sps memsize) (FaultsAt sps memsize)
      (fcfsLoadNext sps memsize s) (a.dispatch sps) := by
  have hlen : s.readyQs.length = 1 := by
    have := h.links.length_eq
    simp only [List.length_cons, Tick.chains, List.length_map, h.placed.levels, fcfsPolicy] at this
    omega
  obtain ⟨readyQueue, hq⟩ := List.length_eq_one_iff.mp hlen
  rw [fcfsLoadNext_eq_multiLoadNext hq]
  exact h.multiLoadNext

/-- One pass of `fcfs_scheduler_runner` is one time step of the scheduler.
SOURCE: process-scheduler.c:378-424 -/
theorem fcfs_pass_matches (h : Represents fcfsPolicy sps memsize s a) :
    Matches (Represents fcfsPolicy sps memsize) (FaultsAt sps memsize)
      (fcfsSchedulerPass sps memsize s) (a.pass fcfsPolicy sps) :=
  pass_matches (by decide) (fun _ _ h => h.fcfsLoadNext) (fun _ _ h => h.fcfsFinish) h

/-! ## Whole runs -/

/-- INTERNAL: a runner enters its loop in the first state of the scheduler.
SOURCE: process-scheduler.c:346-376, 441-477 -/
theorem represents_initial (P : Policy) (sps : List ScheduledProcess) (memsize : ℤ) :
    Represents P sps memsize (initialRunnerState P.levels memsize) (Tick.initial P) where
  placed := Tick.placed_initial P
  bound := Nat.zero_le _
  time := rfl
  spi := rfl
  blocks := rfl
  running := rfl
  links := by
    refine List.Forall₂.cons rfl ?_
    simp only [initialRunnerState, Tick.initial, List.map_replicate, List.map_nil]
    induction P.levels with
    | zero => exact List.Forall₂.nil
    | succ n ih => exact List.Forall₂.cons rfl ih
  runningNext := by simp [Tick.initial]
  readyCore := by
    intro e he
    simp [Tick.initial] at he
  runningCore := by simp [Tick.initial]
  terminatedCore := by simp [Tick.initial]
  allocated := rfl
  memory := rfl

/-- At most `n` time steps of a scheduler. -/
def tickRun (P : Policy) (sps : List ScheduledProcess) (n : ℕ) : Except Empty (Pass Tick) :=
  loop (pureBody (Tick.pass P sps)) n (Tick.initial P)

/-- **The refinement of the runners.** A run of `multi_scheduler_runner` over any number of
passes matches the scheduler's.
SOURCE: process-scheduler.c:439-556 -/
theorem multi_run_matches (q : Quanta) (sps : List ScheduledProcess) (memsize : ℤ) (n : ℕ) :
    ∃ p, tickRun (multiPolicy q) sps n = .ok p ∧
      Matches (Represents (multiPolicy q) sps memsize) (FaultsAt sps memsize)
        (loop (multiSchedulerPass q sps memsize) n (multiInitialState memsize)) p :=
  loop_matches (fun _ _ h => multi_pass_matches h) (fun _ _ h => h.pass) n _ _
    (represents_initial (multiPolicy q) sps memsize)

/-- A run of `fcfs_scheduler_runner` over any number of passes matches the scheduler's.
SOURCE: process-scheduler.c:344-437 -/
theorem fcfs_run_matches (sps : List ScheduledProcess) (memsize : ℤ) (n : ℕ) :
    ∃ p, tickRun fcfsPolicy sps n = .ok p ∧
      Matches (Represents fcfsPolicy sps memsize) (FaultsAt sps memsize)
        (loop (fcfsSchedulerPass sps memsize) n (fcfsInitialState memsize)) p :=
  loop_matches (fun _ _ h => fcfs_pass_matches h) (fun _ _ h => h.pass) n _ _
    (represents_initial fcfsPolicy sps memsize)

end Comp30023.Interface
