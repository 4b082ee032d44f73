import Mathlib.Logic.Relation
import Mathlib.Algebra.BigOperators.Group.Multiset.Basic
import Comp30023.Interface.RunnerSimulation

/-!
# Runs of the tick scheduler, step by step

A time step admits processes, dispatches one and then lets the clock tick. `Step` lists
everything that can happen on the way, each with the guard under which it happens, and
every state of a run is `Reached` by such steps: an invariant of the scheduler is
proved by one case per constructor of `Step`, and nothing after this module unfolds a
time step.

What a step does to the work still to be done is said once, on the `load`: the processes
that were admitted and are not finished, each with the CPU time it has had.
-/

set_option autoImplicit false

namespace Comp30023.Interface

open Comp30023.Library Comp30023.Model

/-- The running task after one more time step on the CPU. -/
def Task.ran (r : Task) : Task := { r with burst := r.burst + 1, cpu := r.cpu + 1 }

/-- What can happen in a time step of the scheduler. -/
inductive Step (P : Policy) (sps : List ScheduledProcess) : Tick → Tick → Prop
  | arrive {a : Tick} {sp : ScheduledProcess} (hsp : sps[a.admitted]? = some sp)
      (hdue : sp.startTime ≤ a.time) : Step P sps a a.admitOne
  | dispatch {a : Tick} {e : Task} {queues : List (List Task)}
      (hwait : ∀ sp, sps[a.admitted]? = some sp → a.time < sp.startTime)
      (hidle : a.running = none) (hpop : popFirst a.queues = some (e, queues)) :
      Step P sps a (a.take e queues)
  | terminate {a : Tick} {r : Task} (hr : a.running = some r)
      (hfin : jobTimeOf sps r.proc ≤ r.cpu + 1) : Step P sps a (a.execute.terminate r.ran)
  | requeue {a : Tick} {r : Task} (hr : a.running = some r)
      (hfin : r.cpu + 1 < jobTimeOf sps r.proc)
      (hquantum : P.exhausted r.level (r.burst + 1) = true) :
      Step P sps a (a.execute.requeue P r.ran)
  | keep {a : Tick} {r : Task} (hr : a.running = some r)
      (hfin : r.cpu + 1 < jobTimeOf sps r.proc)
      (hquantum : P.exhausted r.level (r.burst + 1) = false) : Step P sps a a.execute
  | idle {a : Tick} {sp : ScheduledProcess} (hsp : sps[a.admitted]? = some sp)
      (hwait : a.time < sp.startTime) (hidle : a.running = none)
      (hempty : popFirst a.queues = none) : Step P sps a a.execute

/-- Any number of steps. -/
def Steps (P : Policy) (sps : List ScheduledProcess) : Tick → Tick → Prop :=
  Relation.ReflTransGen (Step P sps)

/-- A state that a run of the scheduler comes through. -/
def Reached (P : Policy) (sps : List ScheduledProcess) (a : Tick) : Prop :=
  Steps P sps (Tick.initial P) a

variable {P : Policy} {sps : List ScheduledProcess} {a b : Tick}

/-! ## What a tick of the clock leaves alone -/

@[simp] theorem Tick.execute_time (a : Tick) : a.execute.time = a.time + 1 := by
  unfold Tick.execute
  cases a.running <;> rfl

@[simp] theorem Tick.execute_admitted (a : Tick) : a.execute.admitted = a.admitted := by
  unfold Tick.execute
  cases a.running <;> rfl

@[simp] theorem Tick.execute_queues (a : Tick) : a.execute.queues = a.queues := by
  unfold Tick.execute
  cases a.running <;> rfl

@[simp] theorem Tick.execute_terminated (a : Tick) : a.execute.terminated = a.terminated := by
  unfold Tick.execute
  cases a.running <;> rfl

theorem Tick.execute_running {r : Task} (hr : a.running = some r) :
    a.execute.running = some r.ran := by
  simp [Tick.execute, hr, Task.ran]

theorem Tick.execute_history {r : Task} (hr : a.running = some r) :
    a.execute.history = a.history ++ [.run r.proc a.time] := by
  simp [Tick.execute, hr]

theorem Tick.execute_idle (hidle : a.running = none) :
    a.execute = { a with time := a.time + 1 } := by
  simp [Tick.execute, hidle]

@[simp] theorem Tick.finish_time (P : Policy) (sps : List ScheduledProcess) (a : Tick) :
    (a.finish P sps).time = a.time := by
  unfold Tick.finish
  cases a.running with
  | none => rfl
  | some r =>
    simp only
    split_ifs <;> rfl

/-! ## A time step is made of steps -/

/-- INTERNAL: admission is made of steps and stops at the first process that is not due. -/
theorem Tick.admitFrom_steps (rest : List ScheduledProcess) (a : Tick)
    (hrest : sps.drop a.admitted = rest) :
    Steps P sps a (a.admitFrom rest) ∧
      (a.admitFrom rest).time = a.time ∧ (a.admitFrom rest).running = a.running ∧
      ∀ sp, sps[(a.admitFrom rest).admitted]? = some sp → a.time < sp.startTime := by
  induction rest generalizing a with
  | nil =>
    refine ⟨Relation.ReflTransGen.refl, rfl, rfl, fun sp hsp => ?_⟩
    have hlt := (List.getElem?_eq_some_iff.mp hsp).1
    have hle := List.drop_eq_nil_iff.mp hrest
    simp only [Tick.admitFrom] at hlt
    omega
  | cons sp rest ih =>
    have hsp : sps[a.admitted]? = some sp := by
      rw [← List.head?_drop, hrest, List.head?_cons]
    have hrest' : sps.drop (a.admitted + 1) = rest := by
      rw [← List.tail_drop, hrest, List.tail_cons]
    unfold Tick.admitFrom
    by_cases hdue : sp.startTime ≤ a.time
    · rw [if_pos hdue]
      obtain ⟨hsteps, htime, hrun, hwait⟩ := ih a.admitOne hrest'
      exact ⟨Relation.ReflTransGen.head (.arrive hsp hdue) hsteps, htime, hrun, hwait⟩
    · rw [if_neg hdue]
      refine ⟨Relation.ReflTransGen.refl, rfl, rfl, fun sp' hsp' => ?_⟩
      rw [hsp, Option.some.injEq] at hsp'
      subst hsp'
      omega

theorem Tick.admit_steps (P : Policy) (sps : List ScheduledProcess) (a : Tick) :
    Steps P sps a (a.arrive sps) ∧ (a.arrive sps).time = a.time ∧
      ∀ sp, sps[(a.arrive sps).admitted]? = some sp → (a.arrive sps).time < sp.startTime := by
  obtain ⟨hsteps, htime, -, hwait⟩ := Tick.admitFrom_steps (P := P) (sps.drop a.admitted) a rfl
  exact ⟨hsteps, htime, fun sp hsp => htime ▸ hwait sp hsp⟩

/-- INTERNAL: with a task on the CPU, the rest of the time step is one step. -/
theorem Tick.work_step {r : Task} (hr : a.running = some r) :
    Step P sps a (a.execute.finish P sps) := by
  unfold Tick.finish
  rw [Tick.execute_running hr]
  simp only
  by_cases hfin : r.ran.cpu ≥ jobTimeOf sps r.ran.proc
  · rw [if_pos hfin]
    exact .terminate hr hfin
  · rw [if_neg hfin]
    by_cases hquantum : P.exhausted r.ran.level r.ran.burst = true
    · rw [if_pos hquantum]
      exact .requeue hr (not_le.mp hfin) hquantum
    · rw [if_neg hquantum]
      exact .keep hr (not_le.mp hfin) (Bool.not_eq_true _ ▸ hquantum)

/-- INTERNAL: with nothing on the CPU, the rest of the time step only moves the clock. -/
theorem Tick.idle_finish (hidle : a.running = none) :
    a.execute.finish P sps = a.execute := by
  simp [Tick.finish, Tick.execute, hidle]

/-- What a time step can be: either the scheduler stops, because nothing is on the CPU, in a
queue, or left in the file, or it takes some steps of which the last one lets the clock
tick. -/
theorem Tick.pass_cases (P : Policy) (sps : List ScheduledProcess) (a : Tick) :
    (∃ b, Steps P sps a b ∧ b.time = a.time ∧ b.running = none ∧ popFirst b.queues = none ∧
      sps[b.admitted]? = none ∧ a.pass P sps = .done b) ∨
    (∃ b c, Steps P sps a b ∧ b.time = a.time ∧
      (∀ sp, sps[b.admitted]? = some sp → b.time < sp.startTime) ∧
      (b.running = none → popFirst b.queues = none ∧ sps[b.admitted]? ≠ none) ∧
      Step P sps b c ∧ c = b.execute.finish P sps ∧ a.pass P sps = .again c) := by
  obtain ⟨hadm, htime, hwait⟩ := a.admit_steps P sps
  unfold Tick.pass
  rcases (a.arrive sps).dispatch_cases sps with ⟨r, hr, hd⟩ | ⟨hidle, e, queues, hpop, hd⟩ |
    ⟨hidle, hempty, hleft, hd⟩ | ⟨hidle, hempty, hend, hd⟩ <;> rw [hd]
  · exact Or.inr ⟨_, _, hadm, htime, hwait, by simp [hr], Tick.work_step hr, rfl, rfl⟩
  · refine Or.inr ⟨_, _, hadm.tail (.dispatch hwait hidle hpop), htime, hwait, by simp [Tick.take],
      Tick.work_step (r := { e with burst := 0 }) rfl, rfl, rfl⟩
  · obtain ⟨sp, hsp⟩ := Option.ne_none_iff_exists'.mp hleft
    refine Or.inr ⟨_, _, hadm, htime, hwait, fun _ => ⟨hempty, hleft⟩, ?_, rfl, rfl⟩
    rw [Tick.idle_finish hidle]
    exact .idle hsp (hwait sp hsp) hidle hempty
  · exact Or.inl ⟨_, hadm, htime, hidle, hempty, hend, rfl⟩

theorem Tick.pass_steps (P : Policy) (sps : List ScheduledProcess) (a : Tick) :
    Steps P sps a (a.pass P sps).state := by
  rcases a.pass_cases P sps with ⟨b, hb, -, -, -, -, hp⟩ | ⟨b, c, hb, -, -, -, hc, -, hp⟩ <;>
    rw [hp]
  · exact hb
  · exact hb.tail hc

/-- INTERNAL: the state of a run after any number of time steps was reached. -/
theorem loop_pass_steps {n : ℕ} {p : Pass Tick}
    (h : loop (pureBody (Tick.pass P sps)) n a = .ok p) : Steps P sps a p.state := by
  induction n generalizing a with
  | zero =>
    simp only [loop, Except.ok.injEq] at h
    subst h
    exact Relation.ReflTransGen.refl
  | succ n ih =>
    have hpass := Tick.pass_steps P sps a
    simp only [loop, pureBody] at h
    cases hp : a.pass P sps with
    | done b =>
      simp only [hp, Except.ok.injEq] at h
      subst h
      rw [hp] at hpass
      exact hpass
    | again b =>
      simp only [hp] at h
      rw [hp] at hpass
      exact hpass.trans (ih h)

/-- Every state of a run was reached. -/
theorem tickRun_reached {n : ℕ} {p : Pass Tick} (h : tickRun P sps n = .ok p) :
    Reached P sps p.state :=
  loop_pass_steps h

/-! ## The load -/

/-- A process with the CPU time it has had. -/
def Task.share (e : Task) : ℕ × ℤ := (e.proc, e.cpu)

/-- The load without the running task. -/
def Tick.waiting (a : Tick) : Multiset (ℕ × ℤ) := (a.queues.flatten.map Task.share : List (ℕ × ℤ))

/-- The processes that were admitted and are not finished, with the CPU time they have had. -/
def Tick.load (a : Tick) : Multiset (ℕ × ℤ) :=
  a.waiting + (a.running.toList.map Task.share : List (ℕ × ℤ))

/-- INTERNAL: a pushed task joins the load. -/
theorem load_pushAt {level : ℕ} {qs : List (List Task)} (hlevel : level < qs.length) (e : Task) :
    (((pushAt level e qs).flatten.map Task.share : List (ℕ × ℤ)) : Multiset (ℕ × ℤ)) =
      e.share ::ₘ ((qs.flatten.map Task.share : List (ℕ × ℤ)) : Multiset (ℕ × ℤ)) := by
  rw [Multiset.cons_coe, Multiset.coe_eq_coe]
  exact (pushAt_perm hlevel e).map Task.share

theorem Tick.load_admitOne (h : 0 < a.queues.length) :
    a.admitOne.load = (a.admitted, 0) ::ₘ a.load := by
  unfold Tick.load Tick.waiting Tick.admitOne
  rw [load_pushAt h, Multiset.cons_add]
  rfl

theorem Tick.load_running {r : Task} (hr : a.running = some r) :
    a.load = (r.proc, r.cpu) ::ₘ a.waiting := by
  unfold Tick.load
  rw [hr, Option.toList_some, List.map_cons, List.map_nil, Multiset.coe_singleton,
    Multiset.add_comm, Multiset.singleton_add]
  rfl

theorem Tick.load_idle (hidle : a.running = none) : a.load = a.waiting := by
  simp [Tick.load, hidle]

theorem Tick.load_take (hidle : a.running = none) {e : Task} {queues : List (List Task)}
    (hpop : popFirst a.queues = some (e, queues)) : (a.take e queues).load = a.load := by
  rw [Tick.load_idle hidle, Tick.load_running (r := { e with burst := 0 }) rfl]
  unfold Tick.waiting Tick.take
  rw [Multiset.cons_coe, Multiset.coe_eq_coe]
  exact ((popFirst_perm hpop).map Task.share).symm

theorem Tick.load_execute_idle (hidle : a.running = none) : a.execute.load = a.load := by
  simp [Tick.load, Tick.waiting, Tick.execute, hidle]

theorem Tick.load_execute {r : Task} (hr : a.running = some r) :
    a.execute.load = (r.proc, r.cpu + 1) ::ₘ a.waiting := by
  rw [Tick.load_running (Tick.execute_running hr)]
  simp [Task.ran, Tick.waiting]

theorem Tick.load_terminate (a : Tick) (r : Task) :
    (a.execute.terminate r).load = a.waiting := by
  rw [Tick.load_idle rfl]
  simp [Tick.waiting, Tick.terminate]

theorem Tick.load_requeue (r : Task) (hlevels : 0 < P.levels)
    (hlen : a.queues.length = P.levels) :
    (a.execute.requeue P r.ran).load = (r.proc, r.cpu + 1) ::ₘ a.waiting := by
  have hlt : min (r.level + 1) (P.levels - 1) < a.queues.length := by omega
  rw [Tick.load_idle rfl]
  unfold Tick.waiting Tick.requeue
  simp only [Tick.execute_queues, Task.ran]
  rw [load_pushAt hlt]
  rfl

/-- INTERNAL: there is nothing to do exactly when nothing is on the CPU or in a queue. -/
theorem Tick.load_eq_zero : a.load = 0 ↔ a.running = none ∧ popFirst a.queues = none := by
  rw [popFirst_eq_none_iff_flatten]
  cases hr : a.running with
  | none => simp [Tick.load_idle hr, Tick.waiting]
  | some r => simp [Tick.load_running hr]

end Comp30023.Interface
