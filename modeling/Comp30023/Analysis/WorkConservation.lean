import Comp30023.Interface.TraceLog

/-!
# Work conservation

Neither scheduler leaves the CPU free while there is something to do. Two such schedulers
may run different processes in every time step, but the CPU time they still owe to the
processes of the file goes down in the same time steps (`SameWork`), so they are busy and
idle together and stop together. In each of them the CPU is busy at a time exactly when
some process that has arrived has not had what it needs (`Accounted`).
-/

set_option autoImplicit false

namespace Comp30023.Analysis

open Comp30023.Library Comp30023.Model Comp30023.Interface

/-- Some process is on the CPU in the time step that starts at `t`. -/
def Busy (log : List (ℕ × ℤ)) (t : ℤ) : Prop := ∃ proc, (proc, t) ∈ log

/-- How many time steps a process has had before time `t`. -/
def ticksBefore (log : List (ℕ × ℤ)) (proc : ℕ) (t : ℤ) : ℕ :=
  log.countP fun x => x.1 = proc ∧ x.2 < t

/-- Some process has arrived by time `t` and has not had the CPU time it needs. -/
def SomeUnfinished (sps : List ScheduledProcess) (log : List (ℕ × ℤ)) (t : ℤ) : Prop :=
  ∃ proc sp, sps[proc]? = some sp ∧ arrival sps proc ≤ t ∧
    (ticksBefore log proc t : ℤ) < max 1 sp.jobTime

variable {P : Policy} {sps : List ScheduledProcess} {a b : Tick}

/-! ## Time steps in terms of work -/

theorem arrival_nonneg (sps : List ScheduledProcess) (proc : ℕ) : 0 ≤ arrival sps proc :=
  (arrival_le_iff.mp le_rfl).1

/-- INTERNAL: when no admission is due, the admitted processes are those that have arrived.
SOURCE: process-scheduler.c:268-294 -/
theorem admitted_iff (ha : a.Paced sps)
    (hwait : ∀ sp, sps[a.admitted]? = some sp → a.time < sp.startTime) (proc : ℕ) :
    proc < a.admitted ↔ proc < sps.length ∧ arrival sps proc ≤ a.time := by
  constructor
  · intro hlt
    refine ⟨lt_of_lt_of_le hlt ha.bound, arrival_le_iff.mpr ⟨ha.time, fun j hj sp hsp => ?_⟩⟩
    exact ha.due j (lt_of_le_of_lt hj hlt) sp hsp
  · rintro ⟨hlen, harr⟩
    by_contra hge
    have hnext : a.admitted < sps.length := lt_of_le_of_lt (not_lt.mp hge) hlen
    have hsp := List.getElem?_eq_getElem hnext
    have hle := (arrival_le_iff.mp harr).2 a.admitted (not_lt.mp hge) _ hsp
    have hlt := hwait _ hsp
    omega

/-- INTERNAL: while the clock stands still no work is done. -/
theorem steps_same_time (h : Steps P sps a b) (hlevels : 0 < P.levels) (ha : Reached P sps a) :
    a.time ≤ b.time ∧
      (b.time = a.time → owed sps b = owed sps a ∧ executed b.history = executed a.history) := by
  induction h with
  | refl => exact ⟨le_rfl, fun _ => ⟨rfl, rfl⟩⟩
  | @tail b c hab hstep ih =>
    have hb : Reached P sps b := Relation.ReflTransGen.trans ha hab
    have howed := hstep.owed_cases hlevels (hb.placed hlevels) (hb.paced hlevels)
    have hexec := hstep.executed_cases
    refine ⟨by omega, fun htime => ?_⟩
    obtain ⟨ho, he⟩ := ih.2 (by omega)
    constructor
    · rcases howed with ⟨-, h⟩ | ⟨h, -⟩ | ⟨h, -⟩
      · rw [h, ho]
      · omega
      · omega
    · rcases hexec with ⟨-, h⟩ | ⟨h, -⟩ | ⟨h, -⟩
      · rw [h, he]
      · omega
      · omega

/-- INTERNAL: a time step in terms of work. `b` is the state when the clock is about to tick:
either the scheduler stops there, or the CPU is idle, or it does one unit of work. -/
theorem pass_work (hlevels : 0 < P.levels) (ha : Reached P sps a) :
    ∃ b, b.Paced sps ∧ b.time = a.time ∧ owed sps b = owed sps a ∧
      executed b.history = executed a.history ∧
      (∀ sp, sps[b.admitted]? = some sp → b.time < sp.startTime) ∧
      ((b.load = 0 ∧ sps[b.admitted]? = none ∧ a.pass P sps = .done b) ∨
       (b.load = 0 ∧ sps[b.admitted]? ≠ none ∧ ∃ c, a.pass P sps = .again c ∧
          c.time = b.time + 1 ∧ c.admitted = b.admitted ∧ owed sps c = owed sps b ∧
          executed c.history = executed b.history) ∨
       (b.load ≠ 0 ∧ ∃ c proc, a.pass P sps = .again c ∧ c.time = b.time + 1 ∧
          c.admitted = b.admitted ∧ owed sps c = owed sps b - 1 ∧
          executed c.history = executed b.history ++ [(proc, b.time)])) := by
  rcases a.pass_cases P sps with ⟨b, hb, htime, hidle, hempty, hend, hp⟩ |
    ⟨b, c, hb, htime, hwait, hfree, hstep, hc, hp⟩
  · obtain ⟨-, hsame⟩ := steps_same_time hb hlevels ha
    have hrb : Reached P sps b := Relation.ReflTransGen.trans ha hb
    refine ⟨b, hrb.paced hlevels, htime, (hsame htime).1, (hsame htime).2, ?_,
      Or.inl ⟨?_, hend, hp⟩⟩
    · simp [hend]
    · exact Tick.load_eq_zero.mpr ⟨hidle, hempty⟩
  · obtain ⟨-, hsame⟩ := steps_same_time hb hlevels ha
    have hrb : Reached P sps b := Relation.ReflTransGen.trans ha hb
    have hct : c.time = b.time + 1 := by rw [hc, Tick.finish_time, Tick.execute_time]
    refine ⟨b, hrb.paced hlevels, htime, (hsame htime).1, (hsame htime).2, hwait, Or.inr ?_⟩
    have hexec := hstep.executed_cases
    rcases hstep.owed_cases hlevels (hrb.placed hlevels) (hrb.paced hlevels) with
      ⟨h, -⟩ | ⟨-, hbusy, hadm, ho⟩ | ⟨-, hload, hadm, ho, -⟩
    · omega
    · rcases hexec with ⟨h, -⟩ | ⟨-, r, -, he⟩ | ⟨-, h, -⟩
      · omega
      · exact Or.inr ⟨hbusy, c, r.proc, hp, hct, hadm, ho, he⟩
      · exact absurd h hbusy
    · rcases hexec with ⟨h, -⟩ | ⟨-, r, hr, -⟩ | ⟨-, -, he⟩
      · omega
      · simp [Tick.load_running hr] at hload
      · exact Or.inl ⟨hload, (hfree (Tick.load_eq_zero.mp hload).1).2, c, hp, hct, hadm, ho, he⟩

/-! ## Two schedulers in lockstep -/

/-- Two schedulers that have done the same amount of work, in the same time steps. -/
structure SameWork (P₁ P₂ : Policy) (sps : List ScheduledProcess) (a₁ a₂ : Tick) : Prop where
  reached₁ : Reached P₁ sps a₁
  reached₂ : Reached P₂ sps a₂
  time : a₁.time = a₂.time
  owed : owed sps a₁ = owed sps a₂
  busy : ∀ t, Busy (executed a₁.history) t ↔ Busy (executed a₂.history) t

/-- INTERNAL: one more time step of work is one more busy time step. -/
theorem busy_snoc {log : List (ℕ × ℤ)} {proc : ℕ} {t u : ℤ} :
    Busy (log ++ [(proc, t)]) u ↔ Busy log u ∨ u = t := by
  unfold Busy
  simp only [List.mem_append, List.mem_singleton, Prod.mk.injEq]
  constructor
  · rintro ⟨p, h | ⟨-, h⟩⟩
    · exact Or.inl ⟨p, h⟩
    · exact Or.inr h
  · rintro (⟨p, h⟩ | h)
    · exact ⟨p, Or.inl h⟩
    · exact ⟨proc, Or.inr ⟨rfl, h⟩⟩

/-- INTERNAL: one time step of each of the two. Who has arrived depends on the time only, so
equal work owed means that both have something to do or neither has. -/
theorem SameWork.pass {P₁ P₂ : Policy} {a₁ a₂ : Tick} (h₁ : 0 < P₁.levels) (h₂ : 0 < P₂.levels)
    (h : SameWork P₁ P₂ sps a₁ a₂) :
    Matches (SameWork P₁ P₂ sps) (fun _ (e : Empty) => e.elim)
      (pureBody (Tick.pass P₁ sps) a₁) (a₂.pass P₂ sps) := by
  obtain ⟨b₁, hp₁, ht₁, ho₁, he₁, hw₁, hcases₁⟩ := pass_work h₁ h.reached₁
  obtain ⟨b₂, hp₂, ht₂, ho₂, he₂, hw₂, hcases₂⟩ := pass_work h₂ h.reached₂
  have hsteps₁ := Tick.pass_steps P₁ sps a₁
  have hsteps₂ := Tick.pass_steps P₂ sps a₂
  have htime : b₁.time = b₂.time := by rw [ht₁, ht₂, h.time]
  have hadm : b₁.admitted = b₂.admitted := by
    refine le_antisymm ?_ ?_ <;> by_contra hlt
    · have := (admitted_iff hp₁ hw₁ b₂.admitted).mp (by omega)
      rw [htime, ← admitted_iff hp₂ hw₂] at this
      omega
    · have := (admitted_iff hp₂ hw₂ b₁.admitted).mp (by omega)
      rw [← htime, ← admitted_iff hp₁ hw₁] at this
      omega
  have howed : Interface.owed sps b₁ = Interface.owed sps b₂ := by rw [ho₁, ho₂, h.owed]
  have hload : b₁.load = 0 ↔ b₂.load = 0 := by
    unfold Interface.owed at howed
    rw [hadm] at howed
    rw [← hp₁.backlog_eq_zero.2, ← hp₂.backlog_eq_zero.2]
    omega
  rw [hadm] at hcases₁
  rcases hcases₁ with ⟨hl₁, hend₁, hpass₁⟩ | ⟨hl₁, hend₁, c₁, hpass₁, hct₁, -, hco₁, hce₁⟩ |
    ⟨hl₁, c₁, proc₁, hpass₁, hct₁, -, hco₁, hce₁⟩
  · rcases hcases₂ with ⟨-, -, hpass₂⟩ | ⟨-, hend₂, -⟩ | ⟨hl₂, -⟩
    · rw [pureBody, hpass₁, hpass₂]
      rw [hpass₁] at hsteps₁
      rw [hpass₂] at hsteps₂
      refine Matches.done ⟨h.reached₁.trans hsteps₁, h.reached₂.trans hsteps₂, htime, howed, ?_⟩
      rw [he₁, he₂]
      exact h.busy
    · exact absurd hend₁ hend₂
    · exact absurd (hload.mp hl₁) hl₂
  · rcases hcases₂ with ⟨-, hend₂, -⟩ | ⟨-, -, c₂, hpass₂, hct₂, -, hco₂, hce₂⟩ | ⟨hl₂, -⟩
    · exact absurd hend₂ hend₁
    · rw [pureBody, hpass₁, hpass₂]
      rw [hpass₁] at hsteps₁
      rw [hpass₂] at hsteps₂
      refine Matches.again ⟨h.reached₁.trans hsteps₁, h.reached₂.trans hsteps₂, ?_, ?_, ?_⟩
      · rw [hct₁, hct₂, htime]
      · rw [hco₁, hco₂, howed]
      · rw [hce₁, hce₂, he₁, he₂]
        exact h.busy
    · exact absurd (hload.mp hl₁) hl₂
  · rcases hcases₂ with ⟨hl₂, -⟩ | ⟨hl₂, -⟩ | ⟨-, c₂, proc₂, hpass₂, hct₂, -, hco₂, hce₂⟩
    · exact absurd (hload.mpr hl₂) hl₁
    · exact absurd (hload.mpr hl₂) hl₁
    · rw [pureBody, hpass₁, hpass₂]
      rw [hpass₁] at hsteps₁
      rw [hpass₂] at hsteps₂
      refine Matches.again ⟨h.reached₁.trans hsteps₁, h.reached₂.trans hsteps₂, ?_, ?_, ?_⟩
      · rw [hct₁, hct₂, htime]
      · rw [hco₁, hco₂, howed]
      · intro t
        rw [hce₁, hce₂, he₁, he₂, busy_snoc, busy_snoc, htime, h.busy t]

/-- INTERNAL: two schedulers stop at the same time, after the same busy time steps. -/
theorem sameWork_of_exits {P₁ P₂ : Policy} {a₁ a₂ : Tick} (h₁ : 0 < P₁.levels)
    (h₂ : 0 < P₂.levels)
    (hdone₁ : Exits (pureBody (Tick.pass P₁ sps)) (Tick.initial P₁) a₁)
    (hdone₂ : Exits (pureBody (Tick.pass P₂ sps)) (Tick.initial P₂) a₂) :
    SameWork P₁ P₂ sps a₁ a₂ := by
  obtain ⟨n, hn⟩ := hdone₁
  have hinit : SameWork P₁ P₂ sps (Tick.initial P₁) (Tick.initial P₂) := by
    refine ⟨Relation.ReflTransGen.refl, Relation.ReflTransGen.refl, rfl, ?_, fun t => Iff.rfl⟩
    simp [Interface.owed, backlog, Tick.initial, Tick.load, Tick.waiting]
  obtain ⟨p, hp, hm⟩ := loop_matches (F := fun _ (e : Empty) => e.elim)
    (fun _ _ h => SameWork.pass h₁ h₂ h) (fun _ e => e.elim) n _ _ hinit
  rw [hn] at hm
  cases hm with
  | done hsame =>
    have heq := Exits.unique ⟨n, hp⟩ hdone₂
    exact heq ▸ hsame

/-! ## One scheduler: when the CPU is busy -/

/-- The record of time steps on the CPU: it agrees with the CPU times of the tasks, and the
CPU was busy exactly when there was something to do. -/
structure Accounted (sps : List ScheduledProcess) (a : Tick) : Prop where
  times : ∀ x ∈ executed a.history, 0 ≤ x.2 ∧ x.2 < a.time
  admitted : ∀ x ∈ executed a.history, x.1 < a.admitted
  live : ∀ x ∈ a.load, ((executed a.history).countP fun y => y.1 = x.1 : ℤ) = x.2
  finished : ∀ e ∈ a.terminated, ((executed a.history).countP fun y => y.1 = e.proc : ℤ) = e.cpu
  busy : ∀ t < a.time, Busy (executed a.history) t ↔ SomeUnfinished sps (executed a.history) t

/-- INTERNAL: by the end of the record all time steps of a process are counted. -/
theorem ticksBefore_eq_countP {log : List (ℕ × ℤ)} {t : ℤ} (h : ∀ x ∈ log, x.2 < t) (proc : ℕ) :
    ticksBefore log proc t = log.countP fun x => x.1 = proc := by
  unfold ticksBefore
  apply List.countP_congr
  intro x hx
  simp [h x hx]

/-- INTERNAL: a later time step does not change what came before. -/
theorem ticksBefore_snoc {log : List (ℕ × ℤ)} {proc proc' : ℕ} {t u : ℤ} (h : t ≤ u) :
    ticksBefore (log ++ [(proc', u)]) proc t = ticksBefore log proc t := by
  unfold ticksBefore
  rw [List.countP_append, List.countP_singleton]
  simp [not_lt.mpr h]

theorem someUnfinished_snoc {log : List (ℕ × ℤ)} {proc : ℕ} {t u : ℤ} (h : t ≤ u) :
    SomeUnfinished sps (log ++ [(proc, u)]) t ↔ SomeUnfinished sps log t := by
  unfold SomeUnfinished
  simp only [ticksBefore_snoc h]

/-- INTERNAL: a process of the load was admitted. -/
theorem load_lt (hplaced : a.Placed P) {x : ℕ × ℤ} (hx : x ∈ a.load) : x.1 < a.admitted := by
  refine hplaced.lt ?_
  unfold Tick.load Tick.waiting at hx
  rw [Multiset.coe_add, Multiset.mem_coe] at hx
  unfold Tick.procs
  rcases List.mem_append.mp hx with hx | hx <;> obtain ⟨e, he, rfl⟩ := List.mem_map.mp hx
  · exact List.mem_append_left _ (List.mem_map_of_mem he)
  · exact List.mem_append_right _ (List.mem_append_left _ (List.mem_map_of_mem he))

/-- INTERNAL: as long as there is something to do, something is unfinished. -/
theorem Accounted.someUnfinished (h : Accounted sps a) (hplaced : a.Placed P)
    (hpaced : a.Paced sps) {x : ℕ × ℤ} (hx : x ∈ a.load) :
    SomeUnfinished sps (executed a.history) a.time := by
  have hlt := load_lt hplaced hx
  have hsp := List.getElem?_eq_getElem (lt_of_lt_of_le hlt hpaced.bound)
  refine ⟨x.1, _, hsp, arrival_le_iff.mpr ⟨hpaced.time, fun j hj sp hsp' => ?_⟩, ?_⟩
  · exact hpaced.due j (lt_of_le_of_lt hj hlt) sp hsp'
  · rw [ticksBefore_eq_countP fun y hy => (h.times y hy).2, h.live x hx, ← demand_eq hsp]
    exact (hpaced.live x hx).2

/-- INTERNAL: when there is nothing to do, no process that was admitted is unfinished. -/
theorem Accounted.not_someUnfinished (h : Accounted sps a) (hplaced : a.Placed P)
    (hpaced : a.Paced sps) (hload : a.load = 0) {t : ℤ} (ht : a.time ≤ t)
    (harrived : ∀ proc < sps.length, arrival sps proc ≤ t → proc < a.admitted) :
    ¬ SomeUnfinished sps (executed a.history) t := by
  rintro ⟨proc, sp, hsp, harr, hticks⟩
  have hlt := harrived proc (List.getElem?_eq_some_iff.mp hsp).1 harr
  have hmem : proc ∈ a.procs := hplaced.procs.mem_iff.mpr (List.mem_range.mpr hlt)
  obtain ⟨hidle, hempty⟩ := Tick.load_eq_zero.mp hload
  rw [popFirst_eq_none_iff_flatten] at hempty
  simp only [Tick.procs, hidle, hempty, List.map_nil, Option.toList_none, List.nil_append] at hmem
  obtain ⟨e, he, rfl⟩ := List.mem_map.mp hmem
  rw [ticksBefore_eq_countP fun y hy => lt_of_lt_of_le (h.times y hy).2 ht, h.finished e he,
    hpaced.finished e he, demand_eq hsp] at hticks
  exact lt_irrefl _ hticks

/-- INTERNAL: the running process waits in no queue and is not terminated. -/
theorem running_ne (hplaced : a.Placed P) {r : Task} (hr : a.running = some r) :
    (∀ x ∈ a.waiting, x.1 ≠ r.proc) ∧ ∀ e ∈ a.terminated, e.proc ≠ r.proc := by
  have hnotMem := hplaced.running_notMem hr
  refine ⟨fun x hx heq => ?_, fun e he heq => ?_⟩
  · unfold Tick.waiting at hx
    obtain ⟨e, he, rfl⟩ := List.mem_map.mp (Multiset.mem_coe.mp hx)
    exact hnotMem (heq ▸ Tick.mem_chains_of_queued he)
  · exact hnotMem (heq ▸ Tick.mem_chains_of_terminated he)

/-- INTERNAL: a time step on the CPU is recorded, wherever the process goes afterwards. -/
theorem Accounted.work (h : Accounted sps a) (hplaced : a.Placed P) (hpaced : a.Paced sps)
    {r : Task} (hr : a.running = some r)
    (hexec : executed b.history = executed a.history ++ [(r.proc, a.time)])
    (htime : b.time = a.time + 1) (hadm : b.admitted = a.admitted)
    (hload : ∀ x ∈ b.load, x = (r.proc, r.cpu + 1) ∨ x ∈ a.waiting)
    (hterm : ∀ e ∈ b.terminated, e = r.ran ∨ e ∈ a.terminated) : Accounted sps b := by
  obtain ⟨hwaiting, hterminated⟩ := running_ne hplaced hr
  have hmem : (r.proc, r.cpu) ∈ a.load := by
    rw [Tick.load_running hr]
    exact Multiset.mem_cons_self _ _
  have hself : ((executed b.history).countP fun y => y.1 = r.proc : ℤ) = r.cpu + 1 := by
    have hlive : ((executed a.history).countP fun y => y.1 = r.proc : ℤ) = r.cpu := h.live _ hmem
    rw [hexec, List.countP_append, List.countP_singleton]
    simp only [decide_true, if_true]
    push_cast
    rw [hlive]
  have hother : ∀ proc, proc ≠ r.proc → ((executed b.history).countP fun y => y.1 = proc) =
      (executed a.history).countP fun y => y.1 = proc := by
    intro proc hne
    rw [hexec, List.countP_append, List.countP_singleton]
    simp [hne.symm]
  refine ⟨fun x hx => ?_, fun x hx => ?_, fun x hx => ?_, fun e he => ?_, fun t ht => ?_⟩
  · rw [hexec] at hx
    rcases List.mem_append.mp hx with hx | hx
    · have := h.times x hx
      omega
    · rw [List.mem_singleton.mp hx, htime]
      exact ⟨hpaced.time, lt_add_one _⟩
  · rw [hexec] at hx
    rw [hadm]
    rcases List.mem_append.mp hx with hx | hx
    · exact h.admitted x hx
    · rw [List.mem_singleton.mp hx]
      exact hplaced.running_lt hr
  · rcases hload x hx with rfl | hx
    · exact hself
    · rw [hother x.1 (hwaiting x hx)]
      refine h.live x ?_
      rw [Tick.load_running hr]
      exact Multiset.mem_cons_of_mem hx
  · rcases hterm e he with rfl | he
    · exact hself
    · rw [hother e.proc (hterminated e he)]
      exact h.finished e he
  · -- the new time step is busy, and its process is unfinished before it
    rw [hexec, busy_snoc, someUnfinished_snoc (by omega)]
    rcases lt_or_eq_of_le (show t ≤ a.time by omega) with hlt | rfl
    · rw [← h.busy t hlt]
      exact or_iff_left (ne_of_lt hlt)
    · exact iff_of_true (Or.inr rfl) (h.someUnfinished hplaced hpaced hmem)

theorem Accounted.step (hstep : Step P sps a b) (h : Accounted sps a) (hlevels : 0 < P.levels)
    (hplaced : a.Placed P) (hpaced : a.Paced sps) : Accounted sps b := by
  cases hstep with
  | arrive hsp hdue =>
    have hexec : executed a.admitOne.history = executed a.history := by
      simp [Tick.admitOne, executed]
    refine ⟨by rw [hexec]; exact h.times, fun x hx => ?_, fun x hx => ?_,
      by rw [hexec]; exact h.finished, by rw [hexec]; exact h.busy⟩
    · rw [hexec] at hx
      exact Nat.lt_succ_of_lt (h.admitted x hx)
    · rw [Tick.load_admitOne (by rw [hplaced.levels]; exact hlevels)] at hx
      rw [hexec]
      rcases Multiset.mem_cons.mp hx with rfl | hx
      · rw [Nat.cast_eq_zero, List.countP_eq_zero]
        intro y hy
        simpa using (h.admitted y hy).ne
      · exact h.live x hx
  | @dispatch e queues _ hidle hpop =>
    have hexec : executed (a.take e queues).history = executed a.history := by
      simp [Tick.take, executed]
    refine ⟨by rw [hexec]; exact h.times, by rw [hexec]; exact h.admitted, ?_,
      by rw [hexec]; exact h.finished, by rw [hexec]; exact h.busy⟩
    rw [hexec, Tick.load_take hidle hpop]
    exact h.live
  | @terminate r hr =>
    refine h.work hplaced hpaced hr ?_ a.execute_time a.execute_admitted (fun x hx => ?_)
      fun e he => ?_
    · rw [Tick.terminate_history hr]
      simp [executed]
    · rw [Tick.load_terminate] at hx
      exact Or.inr hx
    · simp only [Tick.terminate, Tick.execute_terminated, List.mem_append, List.mem_singleton] at he
      exact he.symm
  | @requeue r hr =>
    refine h.work hplaced hpaced hr ?_ a.execute_time a.execute_admitted (fun x hx => ?_)
      fun e he => ?_
    · rw [Tick.requeue_history hr]
      simp [executed]
    · rw [Tick.load_requeue _ hlevels hplaced.levels] at hx
      exact Multiset.mem_cons.mp hx
    · simp only [Tick.requeue, Tick.execute_terminated] at he
      exact Or.inr he
  | @keep r hr =>
    refine h.work hplaced hpaced hr ?_ a.execute_time a.execute_admitted (fun x hx => ?_)
      fun e he => ?_
    · rw [Tick.execute_history hr]
      simp [executed]
    · rw [Tick.load_execute hr] at hx
      exact Multiset.mem_cons.mp hx
    · rw [Tick.execute_terminated] at he
      exact Or.inr he
  | idle hsp hwait hidle hempty =>
    have hload := Tick.load_eq_zero.mpr ⟨hidle, hempty⟩
    rw [Tick.execute_idle hidle]
    refine ⟨fun x hx => ?_, h.admitted, ?_, h.finished, fun t ht => ?_⟩
    · have := h.times x hx
      show 0 ≤ x.2 ∧ x.2 < a.time + 1
      omega
    · have hsame := Tick.load_execute_idle hidle
      rw [Tick.execute_idle hidle] at hsame
      rw [hsame]
      exact h.live
    · rcases lt_or_eq_of_le (show t ≤ a.time by exact Int.lt_add_one_iff.mp ht) with hlt | rfl
      · exact h.busy t hlt
      · refine iff_of_false ?_ (h.not_someUnfinished hplaced hpaced hload le_rfl ?_)
        · rintro ⟨proc, hproc⟩
          exact lt_irrefl _ (h.times _ hproc).2
        · intro proc hlen harr
          refine (admitted_iff hpaced (fun sp' hsp' => ?_) proc).mpr ⟨hlen, harr⟩
          rw [hsp, Option.some.injEq] at hsp'
          exact hsp' ▸ hwait

theorem accounted_of_reached (h : Reached P sps a) (hlevels : 0 < P.levels) : Accounted sps a := by
  induction h with
  | refl =>
    refine ⟨by simp [Tick.initial, executed], by simp [Tick.initial, executed],
      by simp [Tick.initial, Tick.load, Tick.waiting], by simp [Tick.initial], fun t ht => ?_⟩
    refine iff_of_false (by simp [Busy, Tick.initial, executed]) ?_
    rintro ⟨proc, sp, -, harr, -⟩
    have := arrival_nonneg sps proc
    simp only [Tick.initial] at ht
    omega
  | tail hab hstep ih =>
    have ha : Reached P sps _ := hab
    exact ih.step hstep hlevels (ha.placed hlevels) (ha.paced hlevels)

/-- INTERNAL: at the end of a run the record is complete: the CPU was busy exactly when some
process that had arrived was unfinished. -/
theorem busy_iff_of_exits (hlevels : 0 < P.levels)
    (hdone : Exits (pureBody (Tick.pass P sps)) (Tick.initial P) a) (t : ℤ) :
    Busy (executed a.history) t ↔ SomeUnfinished sps (executed a.history) t := by
  obtain ⟨n, hn⟩ := hdone
  have ha : Reached P sps a := tickRun_reached hn
  have hacc := accounted_of_reached ha hlevels
  rcases lt_or_ge t a.time with hlt | hge
  · exact hacc.busy t hlt
  · obtain ⟨hidle, hempty, hadm, -⟩ := tickRun_done hn hlevels
    have hload := Tick.load_eq_zero.mpr ⟨hidle, popFirst_eq_none_iff_flatten.mpr hempty⟩
    refine iff_of_false ?_ (hacc.not_someUnfinished (ha.placed hlevels) (ha.paced hlevels) hload hge
      fun proc hlen _ => hadm ▸ hlen)
    rintro ⟨proc, hproc⟩
    have := (hacc.times _ hproc).2
    simp only at this
    omega

end Comp30023.Analysis
