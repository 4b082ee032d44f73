import Comp30023.Interface.TickPace

/-!
# The feedback queue, one slice at a time

What a multi-level feedback queue is meant to do, without a clock that ticks: whenever
the CPU is free, the processes that have arrived enter the first level, the head of the
highest level that is not empty runs for a whole slice, and whoever is not finished
then goes one level down. When nothing is there to run, time moves on to the next arrival.
-/

set_option autoImplicit false

namespace Comp30023.Interface

open Comp30023.Library Comp30023.Model

/-- A process that waits for the CPU, and how much CPU time it still needs. -/
structure Job where
  proc : ℕ
  remaining : ℤ
deriving Repr, DecidableEq

/-- The state of the scheduler while the CPU is free: the time, the number of processes that
have entered, the levels, and the dispatches so far. -/
structure Slices where
  time : ℤ
  entered : ℕ
  levels : List (List Job)
  log : List (ℤ × ℕ)
deriving Repr, DecidableEq

/-- The head of the highest level that is not empty, with the number of that level. -/
def popHighest : List (List Job) → Option (ℕ × Job × List (List Job))
  | [] => none
  | [] :: rest => (popHighest rest).map fun (level, job, rest') => (level + 1, job, [] :: rest')
  | (job :: jobs) :: rest => some (0, job, jobs :: rest)

/-- The processes that have arrived by now and have not entered yet, in file order. -/
def Slices.arrived (sps : List ScheduledProcess) (s : Slices) : List ℕ :=
  (List.range sps.length).filter fun proc => s.entered ≤ proc ∧ arrival sps proc ≤ s.time

/-- The processes that have arrived enter the first level. -/
def Slices.enter (sps : List ScheduledProcess) (s : Slices) : Slices :=
  { s with
    entered := s.entered + (s.arrived sps).length
    levels := s.levels.modifyHead (· ++ (s.arrived sps).map fun proc => ⟨proc, demand sps proc⟩) }

/-- One slice, or the time until the next process arrives. -/
def slicePass (q : Quanta) (sps : List ScheduledProcess) (s : Slices) : Pass Slices :=
  let s := s.enter sps
  match popHighest s.levels with
  | some (level, job, levels) =>
    let length := min (levelQuantum q level) job.remaining
    .again { s with
      time := s.time + length
      levels :=
        if job.remaining ≤ length then levels
        else pushAt (min (level + 1) 2) ⟨job.proc, job.remaining - length⟩ levels
      log := s.log ++ [(s.time, job.proc)] }
  | none =>
    if s.entered < sps.length then .again { s with time := arrival sps s.entered } else .done s

/-- Three empty levels at time zero. -/
def Slices.initial : Slices := ⟨0, 0, [[], [], []], []⟩

/-! ## Entering in steps -/

/-- The jobs of the processes from number `n` up to `n'`. -/
def newcomers (sps : List ScheduledProcess) (n n' : ℕ) : List Job :=
  ((List.range n').drop n).map fun proc => ⟨proc, demand sps proc⟩

/-- The levels after all processes up to number `n` have entered. -/
def Slices.levelsAt (sps : List ScheduledProcess) (s : Slices) (n : ℕ) : List (List Job) :=
  s.levels.modifyHead (· ++ newcomers sps s.entered n)

variable {sps : List ScheduledProcess} {s : Slices}

theorem newcomers_self (sps : List ScheduledProcess) (n : ℕ) : newcomers sps n n = [] := by
  simp [newcomers]

theorem newcomers_append {n k m : ℕ} (hnk : n ≤ k) (hkm : k ≤ m) :
    newcomers sps n k ++ newcomers sps k m = newcomers sps n m := by
  unfold newcomers
  rw [← List.map_append]
  congr 1
  obtain ⟨d, rfl⟩ := Nat.exists_eq_add_of_le hkm
  rw [List.range_add, List.drop_append, List.drop_append]
  simp [hnk]

theorem levelsAt_entered (sps : List ScheduledProcess) (s : Slices) :
    s.levelsAt sps s.entered = s.levels := by
  unfold Slices.levelsAt
  rw [newcomers_self]
  cases s.levels <;> simp

/-- INTERNAL: entering first some and then the others is entering all. -/
theorem levelsAt_modifyHead {n k : ℕ} (hn : s.entered ≤ n) (hk : n ≤ k) :
    (s.levelsAt sps n).modifyHead (· ++ newcomers sps n k) = s.levelsAt sps k := by
  unfold Slices.levelsAt
  rw [← newcomers_append hn hk]
  cases s.levels <;> simp

/-- INTERNAL: the processes that have arrived are the next ones of the file. -/
theorem arrived_eq {n : ℕ} (hn : n ≤ sps.length)
    (h : ∀ proc < sps.length, arrival sps proc ≤ s.time ↔ proc < n) :
    s.arrived sps = (List.range n).drop s.entered := by
  have hfilter : s.arrived sps =
      (List.range sps.length).filter fun proc => s.entered ≤ proc ∧ proc < n := by
    unfold Slices.arrived
    apply List.filter_congr
    intro proc hproc
    simp only [h proc (List.mem_range.mp hproc)]
  have hsplit : List.range sps.length =
      List.range n ++ (List.range (sps.length - n)).map (n + ·) := by
    rw [← List.range_add, Nat.add_sub_cancel' hn]
  have hlow : ∀ m : ℕ, (List.range m).filter (fun proc => s.entered ≤ proc) =
      (List.range m).drop s.entered := by
    intro m
    induction m with
    | zero => simp
    | succ m ih =>
      rw [List.range_succ, List.filter_append, ih, List.drop_append, List.length_range]
      congr 1
      by_cases hle : s.entered ≤ m
      · simp [hle]
      · rw [List.drop_eq_nil_of_le (by simp; omega)]
        simp [hle]
  rw [hfilter, hsplit, List.filter_append]
  have hhigh : ((List.range (sps.length - n)).map (n + ·)).filter
      (fun proc => decide (s.entered ≤ proc ∧ proc < n)) = [] := by
    rw [List.filter_eq_nil_iff]
    intro proc hproc
    obtain ⟨k, -, rfl⟩ := List.mem_map.mp hproc
    simp
  rw [hhigh, List.append_nil, ← hlow]
  apply List.filter_congr
  intro proc hproc
  simp [List.mem_range.mp hproc]

/-- What entering does when the first `n` processes of the file have arrived. -/
theorem enter_eq {n : ℕ} (hs : s.entered ≤ n) (hn : n ≤ sps.length)
    (h : ∀ proc < sps.length, arrival sps proc ≤ s.time ↔ proc < n) :
    s.enter sps = { s with entered := n, levels := s.levelsAt sps n } := by
  unfold Slices.enter Slices.levelsAt newcomers
  rw [arrived_eq hn h]
  simp [hs]

end Comp30023.Interface
