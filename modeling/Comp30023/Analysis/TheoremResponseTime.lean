import Comp30023.Analysis.TheoremSlices

/-!
# How long a process waits for its first slice

A process that arrives joins the end of the first level, and the first level goes before
the others. So the first slices follow each other as under first come, first served, if every
process were as short as its first slice: `firstServed` is the recurrence for that. The only thing
that can be in the way is a slice of a lower level, which is not cut short when a process arrives.
However much work waits below, it delays the first slices once, by less than one such
slice, and never adds up (`Prompt`).
-/

set_option autoImplicit false

namespace Comp30023.Analysis

open Comp30023.Library Comp30023.Model Comp30023.Interface

/-- How long a slice of a lower level may take. -/
def lowerQuantum (q : Quanta) : ℤ := max q.q2 q.q3

/-- When the first `i` processes of the file have had their first slice, if nothing is in the
way. -/
def firstServed (q : Quanta) (sps : List ScheduledProcess) : ℕ → ℤ
  | 0 => 0
  | i + 1 => max (firstServed q sps i) (arrival sps i) + min q.q1 (demand sps i)

/-- When the process with the number `i` gets its first slice, if nothing is in the way. -/
def firstTurn (q : Quanta) (sps : List ScheduledProcess) (i : ℕ) : ℤ :=
  max (firstServed q sps i) (arrival sps i)

/-- A scheduler that has given the first `k` processes of the file their first slice, each in
time, and is in time for the next one. -/
structure Prompt (q : Quanta) (sps : List ScheduledProcess) (k : ℕ) (s : Slices) : Prop where
  begun : k ≤ s.entered
  bound : s.entered ≤ sps.length
  arrived : ∀ i < s.entered, arrival sps i ≤ s.time
  levels : ∃ l₁ l₂, s.levels = [newcomers sps k s.entered, l₁, l₂] ∧
    ∀ job ∈ l₁ ++ l₂, job.proc < k ∧ 0 < job.remaining
  logged : ∀ x ∈ s.log, x.2 < k
  turns : ∀ i < k, ∃ t, s.log.find? (fun x => x.2 = i) = some (t, i) ∧
    firstTurn q sps i ≤ t ∧ t < firstTurn q sps i + lowerQuantum q
  served : firstServed q sps k ≤ s.time
  next : k < sps.length → s.time < firstTurn q sps k + lowerQuantum q

variable {q : Quanta} {sps : List ScheduledProcess} {s : Slices} {k : ℕ}

theorem firstServed_succ (q : Quanta) (sps : List ScheduledProcess) (i : ℕ) :
    firstServed q sps (i + 1) = firstTurn q sps i + min q.q1 (demand sps i) := rfl

theorem firstServed_le_firstTurn (q : Quanta) (sps : List ScheduledProcess) (i : ℕ) :
    firstServed q sps i ≤ firstTurn q sps i := le_max_left _ _

theorem arrival_le_firstTurn (q : Quanta) (sps : List ScheduledProcess) (i : ℕ) :
    arrival sps i ≤ firstTurn q sps i := le_max_right _ _

theorem demand_pos (sps : List ScheduledProcess) (i : ℕ) : 0 < demand sps i :=
  lt_of_lt_of_le zero_lt_one (le_max_left _ _)

theorem levelQuantum_succ_le (q : Quanta) (level : ℕ) :
    levelQuantum q (level + 1) ≤ lowerQuantum q := by
  cases level with
  | zero => exact le_max_left _ _
  | succ level => exact le_max_right _ _

theorem one_le_levelQuantum (hq : 1 ≤ q.q1 ∧ 1 ≤ q.q2 ∧ 1 ≤ q.q3) (level : ℕ) :
    1 ≤ levelQuantum q level := by
  rcases level with _ | _ | level
  · exact hq.1
  · exact hq.2.1
  · exact hq.2.2

/-! ## Who has arrived -/

theorem arrival_mono {i j : ℕ} (hij : i ≤ j) : arrival sps i ≤ arrival sps j := by
  rw [arrival_le_iff]
  obtain ⟨hzero, hdue⟩ := arrival_le_iff.mp (le_refl (arrival sps j))
  exact ⟨hzero, fun m hm => hdue m (hm.trans hij)⟩

variable (sps) in
/-- INTERNAL: at any time the processes that have arrived are the first ones of the file. -/
theorem exists_arrived (t : ℤ) (m : ℕ) : ∃ n ≤ m, ∀ i < m, arrival sps i ≤ t ↔ i < n := by
  induction m with
  | zero => exact ⟨0, le_rfl, by simp⟩
  | succ m ih =>
    obtain ⟨n, hn, h⟩ := ih
    by_cases hnext : arrival sps m ≤ t
    · refine ⟨m + 1, le_rfl, fun i hi => ⟨fun _ => hi, fun _ => ?_⟩⟩
      exact (arrival_mono (Nat.le_of_lt_succ hi)).trans hnext
    · refine ⟨n, by omega, fun i hi => ?_⟩
      rcases Nat.lt_succ_iff_lt_or_eq.mp hi with hlt | rfl
      · exact h i hlt
      · exact ⟨fun hle => absurd hle hnext, fun hlt => absurd hlt (by omega)⟩

/-- INTERNAL: entering changes nothing about the first slices, and afterwards whoever has
not entered is still to come. -/
theorem Prompt.enter (h : Prompt q sps k s) :
    Prompt q sps k (s.enter sps) ∧ ∀ i < sps.length, (s.enter sps).entered ≤ i →
      (s.enter sps).time < arrival sps i := by
  obtain ⟨n, hn, hiff⟩ := exists_arrived sps s.time sps.length
  have hentered : s.entered ≤ n := by
    by_contra hlt
    have hdue := h.arrived n (not_le.mp hlt)
    exact absurd ((hiff n (lt_of_lt_of_le (not_le.mp hlt) h.bound)).mp hdue) (lt_irrefl n)
  rw [enter_eq hentered hn hiff]
  obtain ⟨l₁, l₂, hlevels, hjobs⟩ := h.levels
  refine ⟨⟨h.begun.trans hentered, hn, fun i hi => ?_, ⟨l₁, l₂, ?_, hjobs⟩, h.logged, h.turns,
    h.served, h.next⟩, fun i hi hni => ?_⟩
  · exact (hiff i (lt_of_lt_of_le hi hn)).mpr hi
  · simp only [Slices.levelsAt, hlevels, List.modifyHead_cons]
    rw [newcomers_append h.begun hentered]
  · exact not_le.mp fun hle => absurd ((hiff i hi).mp hle) (not_lt.mpr hni)

/-! ## One slice -/

/-- INTERNAL: the next process gets its first slice. It went ahead of everything that waits
in the lower levels.
SOURCE: process-scheduler.c:486-499 -/
theorem Prompt.newcomer (hq : 1 ≤ q.q1) (h : Prompt q sps k s) (hk : k < s.entered)
    {levels : List (List Job)} {l₁ l₂ : List Job}
    (hlevels : levels = [newcomers sps (k + 1) s.entered, l₁, l₂])
    (hjobs : ∀ job ∈ l₁ ++ l₂, job.proc < k + 1 ∧ 0 < job.remaining) :
    Prompt q sps (k + 1)
      { s with
        time := s.time + min q.q1 (demand sps k)
        levels := levels
        log := s.log ++ [(s.time, k)] } := by
  have hlength : 0 < min q.q1 (demand sps k) := lt_min (by omega) (demand_pos sps k)
  have hlate : s.time < firstTurn q sps k + lowerQuantum q := h.next (lt_of_lt_of_le hk h.bound)
  have hearly : firstTurn q sps k ≤ s.time := max_le h.served (h.arrived k hk)
  have hserved : firstServed q sps (k + 1) = firstTurn q sps k + min q.q1 (demand sps k) :=
    firstServed_succ q sps k
  refine ⟨hk, h.bound, fun i hi => ?_, ⟨l₁, l₂, hlevels, hjobs⟩, fun x hx => ?_, fun i hi => ?_,
    ?_, fun _ => ?_⟩
  · exact (h.arrived i hi).trans (by simp only; omega)
  · rcases List.mem_append.mp hx with hx | hx
    · exact Nat.lt_succ_of_lt (h.logged x hx)
    · obtain rfl := List.mem_singleton.mp hx
      exact Nat.lt_succ_self k
  · rw [List.find?_append]
    rcases Nat.lt_succ_iff_lt_or_eq.mp hi with hlt | rfl
    · obtain ⟨t, hfind, hbounds⟩ := h.turns i hlt
      exact ⟨t, by rw [hfind]; rfl, hbounds⟩
    · have hnone : s.log.find? (fun x => x.2 = i) = none := by
        rw [List.find?_eq_none]
        intro x hx
        have := h.logged x hx
        simp only [decide_eq_true_eq]
        omega
      exact ⟨s.time, by rw [hnone]; simp, hearly, hlate⟩
  · rw [hserved]
    simp only
    omega
  · have hnext := firstServed_le_firstTurn q sps (k + 1)
    simp only
    omega

/-- INTERNAL: a slice of a lower level. It began before the next process arrived, so it keeps
that one waiting for less than its length.
SOURCE: process-scheduler.c:486-499 -/
theorem Prompt.lower (h : Prompt q sps k s) (hk : k = s.entered)
    (hwait : k < sps.length → s.time < arrival sps k) {level : ℕ} {job : Job}
    {levels : List (List Job)} {l₁ l₂ : List Job} (hquantum : 0 ≤ levelQuantum q (level + 1))
    (hjob : job.proc < k ∧ 0 < job.remaining) (hlevels : levels = [[], l₁, l₂])
    (hjobs : ∀ job ∈ l₁ ++ l₂, job.proc < k ∧ 0 < job.remaining) :
    Prompt q sps k
      { s with
        time := s.time + min (levelQuantum q (level + 1)) job.remaining
        levels := levels
        log := s.log ++ [(s.time, job.proc)] } := by
  have hlength : 0 ≤ min (levelQuantum q (level + 1)) job.remaining :=
    le_min hquantum hjob.2.le
  have hshort : min (levelQuantum q (level + 1)) job.remaining ≤ lowerQuantum q :=
    (min_le_left _ _).trans (levelQuantum_succ_le q level)
  refine ⟨h.begun, h.bound, fun i hi => ?_, ⟨l₁, l₂, ?_, hjobs⟩, fun x hx => ?_, fun i hi => ?_,
    ?_, fun hlt => ?_⟩
  · exact (h.arrived i hi).trans (by simp only; omega)
  · rw [hlevels, hk, newcomers_self]
  · rcases List.mem_append.mp hx with hx | hx
    · exact h.logged x hx
    · obtain rfl := List.mem_singleton.mp hx
      exact hjob.1
  · obtain ⟨t, hfind, hbounds⟩ := h.turns i hi
    exact ⟨t, by rw [List.find?_append, hfind]; rfl, hbounds⟩
  · exact h.served.trans (by simp only; omega)
  · have := hwait hlt
    have := arrival_le_firstTurn q sps k
    simp only
    omega

/-- INTERNAL: nothing is there to run, and time goes on to the next arrival.
SOURCE: process-scheduler.c:503-506 -/
theorem Prompt.wait (hq : 1 ≤ lowerQuantum q) (h : Prompt q sps k s)
    (hwait : s.time < arrival sps k) : Prompt q sps k { s with time := arrival sps k } where
  begun := h.begun
  bound := h.bound
  arrived := fun i hi => (h.arrived i hi).trans hwait.le
  levels := h.levels
  logged := h.logged
  turns := h.turns
  served := h.served.trans hwait.le
  next := fun _ => by
    have := arrival_le_firstTurn q sps k
    simp only
    omega

/-- INTERNAL: what is taken when the first level is empty. -/
theorem popHighest_lower (l₁ l₂ : List Job) :
    popHighest [[], l₁, l₂] = none ∨ ∃ level job l₁' l₂',
      popHighest [[], l₁, l₂] = some (level + 1, job, [[], l₁', l₂']) ∧ job ∈ l₁ ++ l₂ ∧
        ∀ x ∈ l₁' ++ l₂', x ∈ l₁ ++ l₂ := by
  cases l₁ with
  | cons job l₁ =>
    exact Or.inr ⟨0, job, l₁, l₂, rfl, by simp, fun x hx => List.mem_cons_of_mem _ hx⟩
  | nil =>
    cases l₂ with
    | cons job l₂ => exact Or.inr ⟨1, job, [], l₂, rfl, by simp, by simp +contextual⟩
    | nil => exact Or.inl rfl

/-- INTERNAL: where the rest of a job goes, it is again a job of a lower level. -/
theorem levels_after (level : ℕ) (job : Job) (length : ℤ) (l₀ : List Job) {l₁ l₂ : List Job}
    {m : ℕ} (hjob : job.proc < m) (hjobs : ∀ x ∈ l₁ ++ l₂, x.proc < m ∧ 0 < x.remaining) :
    ∃ l₁' l₂', (if job.remaining ≤ length then [l₀, l₁, l₂]
        else pushAt (min (level + 1) 2) ⟨job.proc, job.remaining - length⟩ [l₀, l₁, l₂]) =
        [l₀, l₁', l₂'] ∧
      ∀ x ∈ l₁' ++ l₂', x.proc < m ∧ 0 < x.remaining := by
  by_cases hle : job.remaining ≤ length
  · exact ⟨l₁, l₂, if_pos hle, hjobs⟩
  · have hnew : job.proc < m ∧ 0 < job.remaining - length := ⟨hjob, by omega⟩
    rw [if_neg hle]
    cases level with
    | zero =>
      refine ⟨l₁ ++ [⟨job.proc, job.remaining - length⟩], l₂, rfl, fun x hx => ?_⟩
      simp only [List.mem_append, List.mem_singleton] at hx hjobs
      rcases hx with (hx | rfl) | hx
      · exact hjobs x (Or.inl hx)
      · exact hnew
      · exact hjobs x (Or.inr hx)
    | succ level =>
      have hmin : min (level + 1 + 1) 2 = 2 := by omega
      rw [hmin]
      refine ⟨l₁, l₂ ++ [⟨job.proc, job.remaining - length⟩], rfl, fun x hx => ?_⟩
      simp only [List.mem_append, List.mem_singleton] at hx hjobs
      rcases hx with hx | hx | rfl
      · exact hjobs x (Or.inl hx)
      · exact hjobs x (Or.inr hx)
      · exact hnew

/-- INTERNAL: the first of the newcomers. -/
theorem newcomers_cons {n : ℕ} (hk : k < n) :
    newcomers sps k n = ⟨k, demand sps k⟩ :: newcomers sps (k + 1) n := by
  have hlt : k < (List.range n).length := by simpa using hk
  simp [newcomers, List.drop_eq_getElem_cons hlt]

/-- INTERNAL: a pass that takes a job. -/
theorem slicePass_take {level : ℕ} {job : Job} {levels : List (List Job)}
    (hpop : popHighest (s.enter sps).levels = some (level, job, levels)) :
    slicePass q sps s = .again { s.enter sps with
      time := (s.enter sps).time + min (levelQuantum q level) job.remaining
      levels :=
        if job.remaining ≤ min (levelQuantum q level) job.remaining then levels
        else pushAt (min (level + 1) 2)
          ⟨job.proc, job.remaining - min (levelQuantum q level) job.remaining⟩ levels
      log := (s.enter sps).log ++ [((s.enter sps).time, job.proc)] } := by
  simp only [slicePass, hpop]

/-- INTERNAL: a pass that finds nothing to run. -/
theorem slicePass_free (hnone : popHighest (s.enter sps).levels = none) :
    slicePass q sps s = if (s.enter sps).entered < sps.length then
        .again { s.enter sps with time := arrival sps (s.enter sps).entered }
      else .done (s.enter sps) := by
  simp only [slicePass, hnone]

/-- INTERNAL: a decision of the scheduler keeps it in time, and it stops only when everyone
has had a first slice. -/
theorem Prompt.pass (hq : 1 ≤ q.q1 ∧ 1 ≤ q.q2 ∧ 1 ≤ q.q3) (h : Prompt q sps k s) :
    (∃ s' k', slicePass q sps s = .again s' ∧ Prompt q sps k' s') ∨
      ∃ s', slicePass q sps s = .done s' ∧ Prompt q sps sps.length s' := by
  obtain ⟨hu, hwait⟩ := h.enter
  obtain ⟨l₁, l₂, hlevels, hjobs⟩ := hu.levels
  rcases Nat.lt_or_eq_of_le hu.begun with hk | hk
  · -- the head of the first level
    left
    have hpop : popHighest (s.enter sps).levels = some (0, ⟨k, demand sps k⟩,
        [newcomers sps (k + 1) (s.enter sps).entered, l₁, l₂]) := by
      rw [hlevels, newcomers_cons hk]
      rfl
    obtain ⟨l₁', l₂', hafter, hjobs'⟩ := levels_after 0 ⟨k, demand sps k⟩
      (min q.q1 (demand sps k)) (newcomers sps (k + 1) (s.enter sps).entered) (Nat.lt_succ_self k)
      fun x hx => ⟨Nat.lt_succ_of_lt (hjobs x hx).1, (hjobs x hx).2⟩
    exact ⟨_, k + 1, slicePass_take hpop, hu.newcomer hq.1 hk hafter hjobs'⟩
  · have hnext : k < sps.length → (s.enter sps).time < arrival sps k := fun hlt =>
      hwait k hlt hk.ge
    rw [← hk, newcomers_self] at hlevels
    rcases popHighest_lower l₁ l₂ with hnone | ⟨level, job, l₁', l₂', hpop, hmem, hsub⟩
    · rw [← hlevels] at hnone
      have hpass := slicePass_free (q := q) hnone
      rw [← hk] at hpass
      by_cases hlt : k < sps.length
      · left
        rw [if_pos hlt] at hpass
        have hlower : 1 ≤ lowerQuantum q := hq.2.1.trans (le_max_left _ _)
        exact ⟨_, k, hpass, hu.wait hlower (hnext hlt)⟩
      · right
        rw [if_neg hlt] at hpass
        have hall : k = sps.length := le_antisymm (hk ▸ hu.bound) (not_lt.mp hlt)
        exact ⟨_, hpass, hall ▸ hu⟩
    · left
      rw [← hlevels] at hpop
      have hquantum := one_le_levelQuantum hq (level + 1)
      obtain ⟨m₁, m₂, hafter, hjobs'⟩ := levels_after (level + 1) job
        (min (levelQuantum q (level + 1)) job.remaining) [] (hjobs job hmem).1
        fun x hx => hjobs x (hsub x hx)
      exact ⟨_, k, slicePass_take hpop, hu.lower hk hnext (by omega) (hjobs job hmem) hafter
        hjobs'⟩

/-! ## Whole runs -/

/-- INTERNAL: when the reference stops, everyone has had a first slice in time. -/
theorem prompt_of_exits (hq : 1 ≤ q.q1 ∧ 1 ≤ q.q2 ∧ 1 ≤ q.q3)
    (hexits : Exits (pureBody (slicePass q sps)) Slices.initial s) :
    Prompt q sps sps.length s := by
  have hlower : 0 < lowerQuantum q := lt_of_lt_of_le (by omega) (le_max_left q.q2 q.q3)
  have hinit : Prompt q sps 0 Slices.initial := by
    refine ⟨le_rfl, Nat.zero_le _, by simp [Slices.initial], ⟨[], [], ?_, by simp⟩,
      by simp [Slices.initial], by simp, le_rfl, fun _ => ?_⟩
    · rw [show Slices.initial.entered = 0 from rfl, newcomers_self]
      rfl
    · have : 0 ≤ firstTurn q sps 0 := firstServed_le_firstTurn q sps 0
      simp only [Slices.initial]
      omega
  obtain ⟨n, hn⟩ := hexits
  obtain ⟨m, t, -, hreach, hdone⟩ := exits_last hn
  have hstep : ∀ u v, (∃ k, Prompt q sps k u) → pureBody (slicePass q sps) u = .ok (.again v) →
      ∃ k, Prompt q sps k v := by
    rintro u v ⟨k, hu⟩ hpass
    rw [pureBody, Except.ok.injEq] at hpass
    rcases hu.pass hq with ⟨s', k', hs', hp⟩ | ⟨s', hs', -⟩
    · rw [hs', Pass.again.injEq] at hpass
      exact ⟨k', hpass ▸ hp⟩
    · simp [hs'] at hpass
  obtain ⟨k, hk⟩ := Reaches.invariant hstep ⟨m, hreach⟩ ⟨0, hinit⟩
  rw [pureBody, Except.ok.injEq] at hdone
  rcases hk.pass hq with ⟨s', k', hs', -⟩ | ⟨s', hs', hp⟩
  · simp [hs'] at hdone
  · rw [hs', Pass.done.injEq] at hdone
    exact hdone ▸ hp

/-- **The feedback queue answers quickly, however much work there is.** For any positive
quanta and every file whose processes fit, the first status line of every process comes not before
its turn in the timetable of the first slices alone, and later than that by less than one slice
of a lower level.
SOURCE: process-scheduler.c:439-556 -/
theorem multi_first_slices_in_time (q : Quanta) (sps : List ScheduledProcess) (memsize : ℤ)
    (hq : 1 ≤ q.q1 ∧ 1 ≤ q.q2 ∧ 1 ≤ q.q3)
    (hfit : ∀ sp ∈ sps, 1 ≤ sp.memorySize ∧ sp.memorySize ≤ memsize) :
    ∃ s, Exits (multiSchedulerPass q sps memsize) (multiInitialState memsize) s ∧
      ∀ i < sps.length, ∃ t,
        (statuses s.trace).find? (fun line => line.2.1 = i) = some (t, i, processIdOf sps i) ∧
          firstTurn q sps i ≤ t ∧ t < firstTurn q sps i + lowerQuantum q := by
  obtain ⟨s, a, n, hexits, hdone, -, hw⟩ :=
    exits_of_fit (multi_runs q sps memsize) (show 0 < minPriority by decide) hfit
  obtain ⟨r, hr, hlog, -⟩ := slices_of_tickRun (one_le_levelQuantum hq) hdone
  refine ⟨s, hexits, fun i hi => ?_⟩
  obtain ⟨t, hfind, hbounds⟩ := (prompt_of_exits hq hr).turns i hi
  refine ⟨t, ?_, hbounds⟩
  rw [statuses_of_reached hw, hlog, List.find?_map, Function.comp_def, hfind]
  rfl

/-- A process that arrives during a slice of the second level and has to wait for its end.
SOURCE: process-scheduler.c:439-556 -/
theorem multi_first_slices_in_time_two :
    ∃ s, Exits (multiSchedulerPass ⟨2, 4, 8⟩ [⟨0, 5, 60, 9⟩, ⟨3, 6, 40, 2⟩] 100)
        (multiInitialState 100) s ∧
      ∀ i < 2, ∃ t, (statuses s.trace).find? (fun line => line.2.1 = i) =
          some (t, i, processIdOf [⟨0, 5, 60, 9⟩, ⟨3, 6, 40, 2⟩] i) ∧
        firstTurn ⟨2, 4, 8⟩ [⟨0, 5, 60, 9⟩, ⟨3, 6, 40, 2⟩] i ≤ t ∧
          t < firstTurn ⟨2, 4, 8⟩ [⟨0, 5, 60, 9⟩, ⟨3, 6, 40, 2⟩] i + 8 :=
  multi_first_slices_in_time ⟨2, 4, 8⟩ [⟨0, 5, 60, 9⟩, ⟨3, 6, 40, 2⟩] 100 (by decide) (by decide)

end Comp30023.Analysis
