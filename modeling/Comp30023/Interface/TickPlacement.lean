import Comp30023.Interface.TickScheduler

/-!
# Where the tasks of a scheduler are

Every admitted process is in exactly one place: in one queue, on the CPU, or among the
terminated ones (`Placed`). Each stage of a time step moves at most one task, so each
keeps this; the lemmas of this module are stated stage by stage because the
simulation of the runners goes stage by stage too.
-/

set_option autoImplicit false

namespace Comp30023.Interface

open Comp30023.Library Comp30023.Model

/-- The numbers of all tasks, wherever they are. -/
def Tick.procs (a : Tick) : List ℕ :=
  a.queues.flatten.map Task.proc ++ (a.running.toList.map Task.proc ++ a.terminated.map Task.proc)

/-- Every admitted process is in exactly one place, and a queued task knows its level. -/
structure Tick.Placed (P : Policy) (a : Tick) : Prop where
  levels : a.queues.length = P.levels
  procs : a.procs.Perm (List.range a.admitted)
  queued : ∀ (k : ℕ) (q : List Task), a.queues[k]? = some q → ∀ e ∈ q, e.level = k ∧ e.burst = 0
  current : ∀ r, a.running = some r → r.level < P.levels

variable {P : Policy} {sps : List ScheduledProcess} {a : Tick}

theorem Tick.Placed.nodup (h : a.Placed P) : a.procs.Nodup :=
  h.procs.nodup_iff.mpr List.nodup_range

theorem Tick.Placed.lt (h : a.Placed P) {proc : ℕ} (hp : proc ∈ a.procs) : proc < a.admitted :=
  List.mem_range.mp (h.procs.mem_iff.mp hp)

/-- INTERNAL: a task that waits is not among the terminated ones. -/
theorem Tick.Placed.popped_ne (h : a.Placed P) {e : Task} {queues : List (List Task)}
    (hpop : popFirst a.queues = some (e, queues)) : ∀ t ∈ a.terminated, t.proc ≠ e.proc := by
  intro t ht heq
  have hmem : e ∈ a.queues.flatten := (popFirst_perm hpop).mem_iff.mpr List.mem_cons_self
  have hnodup := h.nodup
  unfold Tick.procs at hnodup
  rw [List.nodup_append] at hnodup
  exact hnodup.2.2 e.proc (List.mem_map_of_mem hmem) t.proc
    (List.mem_append_right _ (List.mem_map_of_mem ht)) heq.symm

/-- INTERNAL: a task that waits was admitted. -/
theorem Tick.Placed.popped_lt (h : a.Placed P) {e : Task} {queues : List (List Task)}
    (hpop : popFirst a.queues = some (e, queues)) : e.proc < a.admitted := by
  have hmem : e ∈ a.queues.flatten := (popFirst_perm hpop).mem_iff.mpr List.mem_cons_self
  exact h.lt (List.mem_append_left _ (List.mem_map_of_mem hmem))

theorem Tick.placed_initial (P : Policy) : (Tick.initial P).Placed P where
  levels := by simp [Tick.initial]
  procs := by simp [Tick.initial, Tick.procs]
  queued := by
    intro k q hk e he
    simp only [Tick.initial, List.getElem?_replicate] at hk
    split at hk
    · rw [← Option.some.inj hk] at he
      simp at he
    · simp at hk
  current := by simp [Tick.initial]

/-- INTERNAL: a queue after a push has the new task or is as before. -/
theorem queued_pushAt {qs : List (List Task)} {level : ℕ} {e : Task}
    (h : ∀ (k : ℕ) (q : List Task), qs[k]? = some q → ∀ e ∈ q, e.level = k ∧ e.burst = 0)
    (hlevel : e.level = level) (hburst : e.burst = 0) (k : ℕ) (q : List Task)
    (hk : (pushAt level e qs)[k]? = some q) : ∀ e ∈ q, e.level = k ∧ e.burst = 0 := by
  intro x hx
  rw [getElem?_pushAt] at hk
  by_cases heq : k = level
  · rw [if_pos heq, Option.map_eq_some_iff] at hk
    obtain ⟨q', hq', rfl⟩ := hk
    rcases List.mem_append.mp hx with hx | hx
    · exact h k q' hq' x hx
    · rw [List.mem_singleton.mp hx]
      exact ⟨hlevel.trans heq.symm, hburst⟩
  · rw [if_neg heq] at hk
    exact h k q hk x hx

theorem Tick.Placed.admitOne (h : a.Placed P) (hlevels : 0 < P.levels) : a.admitOne.Placed P where
  levels := by simp [Tick.admitOne, h.levels]
  procs := by
    have hlt : 0 < a.queues.length := by rw [h.levels]; exact hlevels
    have hpush := pushAt_perm hlt (⟨a.admitted, 0, 0, 0⟩ : Task)
    have hprocs : a.admitOne.procs.Perm (a.admitted :: a.procs) := by
      unfold Tick.procs Tick.admitOne
      exact (hpush.map Task.proc).append_right _
    have hrange : (List.range (a.admitted + 1)).Perm (a.admitted :: List.range a.admitted) := by
      rw [List.range_succ]
      exact List.perm_append_singleton _ _
    exact hprocs.trans ((h.procs.cons _).trans hrange.symm)
  queued := fun k q hk => queued_pushAt h.queued rfl rfl k q hk
  current := h.current

/-- The state after the next task was taken from the queues. -/
def Tick.take (a : Tick) (e : Task) (queues : List (List Task)) : Tick :=
  { a with
    queues := queues
    running := some { e with burst := 0 }
    history := a.history ++ [.dispatch e.proc a.time] }

/-- INTERNAL: what a dispatch can do: keep the running task, take the next one, idle, or
stop. -/
theorem Tick.dispatch_cases (sps : List ScheduledProcess) (a : Tick) :
    (∃ r, a.running = some r ∧ a.dispatch sps = .again a) ∨
    (a.running = none ∧ ∃ e queues, popFirst a.queues = some (e, queues) ∧
      a.dispatch sps = .again (a.take e queues)) ∨
    (a.running = none ∧ popFirst a.queues = none ∧ sps[a.admitted]? ≠ none ∧
      a.dispatch sps = .again a) ∨
    (a.running = none ∧ popFirst a.queues = none ∧ sps[a.admitted]? = none ∧
      a.dispatch sps = .done a) := by
  unfold Tick.dispatch
  cases hr : a.running with
  | some r => exact Or.inl ⟨r, rfl, rfl⟩
  | none =>
    right
    cases hp : popFirst a.queues with
    | some popped =>
      obtain ⟨e, queues⟩ := popped
      exact Or.inl ⟨rfl, e, queues, rfl, rfl⟩
    | none =>
      right
      by_cases hend : sps[a.admitted]? = none
      · exact Or.inr ⟨rfl, rfl, hend, by simp [hend]⟩
      · exact Or.inl ⟨rfl, rfl, hend, by simp [hend]⟩

theorem Tick.Placed.take (h : a.Placed P) (hidle : a.running = none) {e : Task}
    {queues : List (List Task)} (hpop : popFirst a.queues = some (e, queues)) :
    (a.take e queues).Placed P := by
  obtain ⟨k, q, hk, rfl, -⟩ := popFirst_eq_some hpop
  have hlt : k < a.queues.length := (List.getElem?_eq_some_iff.mp hk).1
  refine ⟨by simpa [Tick.take] using h.levels, ?_, ?_, ?_⟩
  · have hperm := (popFirst_perm hpop).map Task.proc
    have hprocs : a.procs.Perm (a.take e (a.queues.set k q)).procs := by
      unfold Tick.procs Tick.take
      simp only [hidle, Option.toList_none, Option.toList_some, List.map_nil, List.nil_append,
        List.map_cons, List.singleton_append] at *
      exact (hperm.append_right _).trans (List.perm_middle (a := e.proc)).symm
    exact hprocs.symm.trans h.procs
  · intro j q' hj x hx
    simp only [Tick.take, List.getElem?_set] at hj
    split at hj
    · rename_i heq
      subst heq
      rw [Option.some.injEq] at hj
      subst hj
      exact h.queued k _ hk x (List.mem_cons_of_mem _ hx)
    · exact h.queued j q' hj x hx
  · intro r hr
    simp only [Tick.take, Option.some.injEq] at hr
    subst hr
    show e.level < P.levels
    rw [(h.queued k _ hk e List.mem_cons_self).1, ← h.levels]
    exact hlt

theorem Tick.Placed.execute (h : a.Placed P) : a.execute.Placed P := by
  unfold Tick.execute
  cases hr : a.running with
  | none => exact ⟨h.levels, by simpa [Tick.procs, hr] using h.procs, h.queued, by simp⟩
  | some r =>
    refine ⟨h.levels, by simpa [Tick.procs, hr] using h.procs, h.queued, ?_⟩
    intro r' hr'
    simp only [Option.some.injEq] at hr'
    subst hr'
    exact h.current r hr

theorem Tick.Placed.terminate (h : a.Placed P) {r : Task} (hr : a.running = some r) :
    (a.terminate r).Placed P := by
  refine ⟨h.levels, ?_, h.queued, by simp [Tick.terminate]⟩
  have hp := h.procs
  unfold Tick.procs at hp ⊢
  simp only [hr, Option.toList_some, List.map_cons, List.map_nil, List.singleton_append,
    Tick.terminate, Option.toList_none, List.nil_append, List.map_append] at hp ⊢
  exact ((List.perm_append_singleton _ _).append_left _).trans hp

theorem Tick.Placed.requeue (h : a.Placed P) {r : Task} (hr : a.running = some r)
    (hlevels : 0 < P.levels) : (a.requeue P r).Placed P := by
  have hlt : min (r.level + 1) (P.levels - 1) < a.queues.length := by
    rw [h.levels]
    omega
  refine ⟨by simp [Tick.requeue, h.levels], ?_,
    fun k q hk => queued_pushAt h.queued rfl rfl k q hk, by simp [Tick.requeue]⟩
  have hp := h.procs
  have hpush := (pushAt_perm hlt ({ r with
    level := min (r.level + 1) (P.levels - 1), burst := 0 } : Task)).map Task.proc
  unfold Tick.procs at hp ⊢
  simp only [hr, Option.toList_some, List.map_cons, List.map_nil, List.singleton_append] at hp hpush
  simp only [Tick.requeue, Option.toList_none, List.map_nil, List.nil_append]
  exact (hpush.append_right _).trans (List.perm_middle.symm.trans hp)

end Comp30023.Interface
