import Comp30023.Interface.BufferLaws

/-!
# Shutting down

Once `is_exiting` is set, no thread begins another call, but those that are already waiting for
a token stay where they are until another thread posts one. Every thread in a call of the other
kind will post one, if it gets its own. From then on the tokens and the waiting threads of each
kind are balanced against each other, so that it is settled when the flag is set whether the
threads can come to hang.
-/

set_option autoImplicit false

namespace Comp30023.Analysis

open Comp30023.Library Comp30023.Model Comp30023.Interface

variable {s t : Threads BufferState Worker} {w w' : Worker} {m m' : BufferState}

/-- The thread waits for a semaphore. -/
def Blocked (w : Worker) (m : BufferState) : Prop := ∀ rand, workerStep rand w m = .error .blocked

/-- There is a thread that has not returned, and all those that have not are waiting. -/
def Hung (s : Threads BufferState Worker) : Prop :=
  (∃ w ∈ s.threads, w.point ≠ .returned) ∧
    ∀ w ∈ s.threads, w.point ≠ .returned → Blocked w s.shared

def otherRole : Role → Role
  | .producer => .consumer
  | .consumer => .producer

/-- The points of a call of `insert_item` or `remove_item` behind its test of `is_exiting`. -/
def inCall : List Point := [.waitsToken, .waitsBuffer, .inside, .leaves, .posts]

/-- The threads of each kind that wait for a token are not more than the tokens there are and the
threads of the other kind that are in a call, behind its test of `is_exiting`. -/
def ShutdownSafe (s : Threads BufferState Worker) : Prop :=
  ∀ role, number role [.waitsToken] s ≤
    tokenSem role s.shared + number (otherRole role) inCall s

/-- The tokens and the threads that post them, less the threads that wait for them. -/
def balance (role : Role) (s : Threads BufferState Worker) : ℤ :=
  tokenSem role s.shared + number (otherRole role) inCall s - number role [.waitsToken] s

/-! ## What is settled when the flag is set -/

/-- INTERNAL: the flag stays set.
SOURCE: producer-consumer-problem-semaphore.c:36-105, 182 -/
theorem exiting_kept (h : WorkerMove w m w' m') : m'.isExiting = m.isExiting := by
  cases h with
  | insert hinsert =>
    obtain ⟨buffer, rfl⟩ := insertInside_frame hinsert
    rfl
  | remove hremove =>
    obtain ⟨buffer, rfl⟩ := removeInside_frame hremove
    rfl
  | _ => rfl

/-- INTERNAL: a thread that gets its token will post one of the other kind.
SOURCE: producer-consumer-problem-semaphore.c:45-63, 78-102 -/
theorem balance_kept (role : Role) (hexiting : m.isExiting = true) (h : WorkerMove w m w' m') :
    (tokenSem role m' : ℤ) + (isAt (otherRole role) inCall w' - isAt role [.waitsToken] w') =
      tokenSem role m + (isAt (otherRole role) inCall w - isAt role [.waitsToken] w) := by
  cases h with
  | call hrunning => simp [hexiting] at hrunning
  | insert hinsert =>
    obtain ⟨buffer, rfl⟩ := insertInside_frame hinsert
    cases role <;> simp [isAt, otherRole, inCall, tokenSem]
  | remove hremove =>
    obtain ⟨buffer, rfl⟩ := removeInside_frame hremove
    cases role <;> simp [isAt, otherRole, inCall, tokenSem]
  | takeSpace htoken =>
    cases role <;> simp [isAt, otherRole, inCall, tokenSem]
    omega
  | takeItem htoken =>
    cases role <;> simp [isAt, otherRole, inCall, tokenSem]
    omega
  | _ => cases role <;> simp [isAt, otherRole, inCall, tokenSem]

/-- Once the flag is set, a step does not change the balance of either kind. -/
theorem balance_step (role : Role) (hexiting : s.shared.isExiting = true) (h : BufferStep s t) :
    t.shared.isExiting = true ∧ balance role t = balance role s := by
  cases h with
  | exit hrunning => simp [hexiting] at hrunning
  | worker hturn =>
    constructor
    · obtain ⟨-, hstep⟩ := hturn
      exact (exiting_kept (workerMove_of_steps hstep)).trans hexiting
    · have hsum := Turn.conserves (q := fun m => tokenSem role m)
        (f := fun w => isAt (otherRole role) inCall w - isAt role [.waitsToken] w)
        (fun w w' m' hstep => balance_kept role hexiting (workerMove_of_steps hstep)) hturn
      rw [total_sub, total_sub] at hsum
      unfold balance number
      omega

/-- INTERNAL: the same for any number of steps. -/
theorem balance_run (role : Role) (hexiting : s.shared.isExiting = true)
    (h : Relation.ReflTransGen BufferStep s t) :
    t.shared.isExiting = true ∧ balance role t = balance role s := by
  induction h with
  | refl => exact ⟨hexiting, rfl⟩
  | tail _ hstep ih =>
    obtain ⟨hexiting', hbalance⟩ := balance_step role ih.1 hstep
    exact ⟨hexiting', hbalance.trans ih.2⟩

/-- INTERNAL: safety in terms of the balance. -/
theorem shutdownSafe_iff : ShutdownSafe s ↔ ∀ role, 0 ≤ balance role s := by
  refine forall_congr' fun role => ?_
  unfold balance
  omega

/-- INTERNAL: setting the flag does not make a state safe or unsafe. -/
theorem shutdownSafe_setExiting : ShutdownSafe (setExiting s) ↔ ShutdownSafe s := by
  refine forall_congr' fun role => ?_
  cases role <;> rfl

/-! ## Threads that hang -/

/-- INTERNAL: what a waiting thread waits for. -/
theorem blocked_point (h : BufferLaws s) (hw : w ∈ s.threads) (hblocked : Blocked w s.shared) :
    (w.point = .waitsToken ∧ tokenSem w.role s.shared = 0) ∨
      (w.point = .waitsBuffer ∧ s.shared.bufferSem = 0) := by
  rcases h.progress hw 0 with ⟨w', m, hok⟩ | ⟨hended, -⟩ | ⟨-, hpoint⟩
  · simp [hblocked 0] at hok
  · simp [hblocked 0] at hended
  · exact hpoint

/-- In a safe state the threads do not hang.
SOURCE: producer-consumer-problem-semaphore.c:36-105 -/
theorem not_hung (h : BufferLaws s) (hsafe : ShutdownSafe s) : ¬ Hung s := by
  rintro ⟨⟨w, hw, hpoint⟩, hall⟩
  have hwhere : ∀ v ∈ s.threads, v.point = .returned ∨
      (v.point = .waitsToken ∧ tokenSem v.role s.shared = 0) ∨
        (v.point = .waitsBuffer ∧ s.shared.bufferSem = 0) := by
    intro v hv
    by_cases hreturned : v.point = .returned
    · exact Or.inl hreturned
    · exact Or.inr (blocked_point h hv (hall v hv hreturned))
  -- no thread holds the lock of the buffer, so none waits for it
  have hinside : ∀ role, number role [.inside, .leaves] s = 0 := by
    intro role
    refine number_eq_zero fun v hv _ => ?_
    rcases hwhere v hv with hv | ⟨hv, -⟩ | ⟨hv, -⟩ <;> simp [hv]
  have hfree : s.shared.bufferSem ≠ 0 := by
    have hlock := h.lock
    rw [hinside, hinside] at hlock
    omega
  have hwaits : ∀ v ∈ s.threads, v.point = .returned ∨
      (v.point = .waitsToken ∧ tokenSem v.role s.shared = 0) := by
    intro v hv
    rcases hwhere v hv with hv | hv | ⟨-, hzero⟩
    · exact Or.inl hv
    · exact Or.inr hv
    · exact absurd hzero hfree
  -- so every token is in one of the semaphores
  have hnone : ∀ role points, Point.returned ∉ points → Point.waitsToken ∉ points →
      number role points s = 0 := by
    intro role points hreturned htoken
    refine number_eq_zero fun v hv _ => ?_
    rcases hwaits v hv with hv | ⟨hv, -⟩
    · rwa [hv]
    · rwa [hv]
  have htokens : ∀ role, tokenSem role s.shared + tokenSem (otherRole role) s.shared =
      bufferSize := by
    have hspace := h.space
    have hitems := h.items
    rw [hnone _ _ (by decide) (by decide), hnone _ _ (by decide) (by decide)] at hspace hitems
    intro role
    cases role <;> simp only [tokenSem, otherRole] <;> omega
  rcases hwaits w hw with hreturned | ⟨htoken, hzero⟩
  · exact hpoint hreturned
  · have hother : number (otherRole w.role) inCall s = 0 := by
      refine number_eq_zero fun v hv hrole => ?_
      rcases hwaits v hv with hv | ⟨-, hempty⟩
      · rw [hv]
        decide
      · have hsum := htokens w.role
        rw [hzero, ← hrole, hempty] at hsum
        cases hsum
    have hone := one_le_number [.waitsToken] hw rfl (by simp [htoken])
    have hle := hsafe w.role
    rw [hother, hzero] at hle
    omega

/-- How many steps a thread takes at most once the flag is set. -/
def stepsLeft (w : Worker) : ℕ :=
  match w.point with
  | .waitsToken => 7
  | .waitsBuffer => 6
  | .inside => 5
  | .leaves => 4
  | .posts => 3
  | .outside => 2
  | .rejected => 1
  | .returned => 0

/-- INTERNAL: every step is one step less.
SOURCE: producer-consumer-problem-semaphore.c:36-105, 213-274 -/
theorem stepsLeft_lt (hexiting : m.isExiting = true) (h : WorkerMove w m w' m') :
    stepsLeft w' < stepsLeft w := by
  cases h with
  | call hrunning => simp [hexiting] at hrunning
  | retry hrunning => simp [hexiting] at hrunning
  | _ => simp [stepsLeft]

/-- From an unsafe state in which the flag is set, the threads come to hang if they go on as long
as they can.
SOURCE: producer-consumer-problem-semaphore.c:36-105, 213-274 -/
theorem exists_hung (h : BufferLaws s) (hexiting : s.shared.isExiting = true)
    (hnotsafe : ¬ ShutdownSafe s) : ∃ t, Relation.ReflTransGen BufferStep s t ∧ Hung t := by
  rw [shutdownSafe_iff] at hnotsafe
  push Not at hnotsafe
  obtain ⟨role, hrole⟩ := hnotsafe
  have hstep : ∀ u v, (BufferLaws u ∧ u.shared.isExiting = true ∧ balance role u < 0) →
      BufferStep u v → (BufferLaws v ∧ v.shared.isExiting = true ∧ balance role v < 0) ∧
        total stepsLeft v.threads < total stepsLeft u.threads := by
    rintro u v ⟨hu, hexiting, hneg⟩ hstep
    obtain ⟨hexiting', hbalance⟩ := balance_step role hexiting hstep
    refine ⟨⟨hu.step hstep, hexiting', hbalance ▸ hneg⟩, ?_⟩
    cases hstep with
    | exit hrunning => simp [hexiting] at hrunning
    | worker hturn =>
      exact hturn.lowers fun w w' m hmove => stepsLeft_lt hexiting (workerMove_of_steps hmove)
  obtain ⟨t, hrun, ⟨hlaws, -, hneg⟩, hrest⟩ :=
    exists_rest (fun u => total stepsLeft u.threads) hstep s ⟨h, hexiting, hrole⟩
  refine ⟨t, hrun, ?_, ?_⟩
  · -- the balance is negative, so a thread waits for a token
    have hpos : 0 < number role [.waitsToken] t := by
      have := number_nonneg (otherRole role) inCall t
      unfold balance at hneg
      omega
    obtain ⟨w, hw, hne⟩ := exists_of_total_pos hpos
    refine ⟨w, hw, ?_⟩
    intro hreturned
    simp [isAt, hreturned] at hne
  · intro w hw hpoint rand
    rcases hlaws.progress hw rand with ⟨w', m, hok⟩ | ⟨-, hreturned⟩ | ⟨hblocked, -⟩
    · obtain ⟨i, hi⟩ := List.getElem?_of_mem hw
      exact absurd (.worker (.take hi ⟨rand, hok⟩)) (hrest _)
    · exact absurd hreturned hpoint
    · exact hblocked

/-! ## Whole runs -/

/-- No run from here comes to a state in which the threads hang. -/
def NeverHangs (s : Threads BufferState Worker) : Prop :=
  ∀ t, Relation.ReflTransGen BufferStep s t → ¬ Hung t

/-- A step of the program where `main` sets the flag in safe states only. -/
def SafeStep (s t : Threads BufferState Worker) : Prop :=
  BufferStep s t ∧ (s.shared.isExiting = false → t.shared.isExiting = true → ShutdownSafe s)

/-- INTERNAL: after the flag was set in a safe state, all states are safe.
SOURCE: producer-consumer-problem-semaphore.c:36-105, 182 -/
theorem safe_of_safeStep (h : ShutdownSafe s ∨ s.shared.isExiting = false) (hstep : SafeStep s t) :
    ShutdownSafe t ∨ t.shared.isExiting = false := by
  obtain ⟨hstep, hguard⟩ := hstep
  cases hexiting : s.shared.isExiting with
  | true =>
    have hsafe := h.resolve_right (by simp [hexiting])
    rw [shutdownSafe_iff] at hsafe ⊢
    exact Or.inl fun role => (balance_step role hexiting hstep).2 ▸ hsafe role
  | false =>
    cases hstep with
    | exit => exact Or.inl (shutdownSafe_setExiting.mpr (hguard hexiting rfl))
    | worker hturn =>
      obtain ⟨-, hmove⟩ := hturn
      exact Or.inr ((exiting_kept (workerMove_of_steps hmove)).trans hexiting)

/-- INTERNAL: the same for any number of steps. -/
theorem safe_of_safeSteps {nProducerThreads nConsumerThreads : ℕ}
    (h : Relation.ReflTransGen SafeStep (bufferInitial nProducerThreads nConsumerThreads) t) :
    ShutdownSafe t ∨ t.shared.isExiting = false := by
  induction h with
  | refl => exact Or.inr rfl
  | tail _ hstep ih => exact safe_of_safeStep ih hstep

/-- **When shutting down cannot hang.** For any numbers of producers and consumers: in every run
in which `main` sets the flag in safe states only, no state that is reached after it has set the
flag is one in which a thread has not returned and all those that have not are waiting. This is
the exact condition: of the states that are reached before the flag is set, the safe ones are
those from which no run comes to such a state once the flag is set in them.
SOURCE: producer-consumer-problem-semaphore.c:36-105, 178-199, 213-274 -/
theorem shutdown_never_hangs_iff (nProducerThreads nConsumerThreads : ℕ) :
    (∀ t, Relation.ReflTransGen SafeStep (bufferInitial nProducerThreads nConsumerThreads) t →
      t.shared.isExiting = true → ¬ Hung t) ∧
    ∀ s, BufferReaches nProducerThreads nConsumerThreads s → s.shared.isExiting = false →
      (NeverHangs (setExiting s) ↔ ShutdownSafe s) := by
  constructor
  · intro t hrun hexiting
    have hreaches : BufferReaches nProducerThreads nConsumerThreads t :=
      Relation.ReflTransGen.mono (fun _ _ hstep => hstep.1) _ _ hrun
    exact not_hung (BufferLaws.of_reaches hreaches)
      ((safe_of_safeSteps hrun).resolve_right (by simp [hexiting]))
  · intro s hreaches hrunning
    have hlaws : BufferLaws (setExiting s) := (BufferLaws.of_reaches hreaches).step (.exit hrunning)
    constructor
    · intro hnever
      by_contra hnotsafe
      rw [← shutdownSafe_setExiting] at hnotsafe
      obtain ⟨t, hrun, hhung⟩ := exists_hung hlaws rfl hnotsafe
      exact hnever t hrun hhung
    · intro hsafe t hrun
      have hlaws' := BufferLaws.of_reaches ((hreaches.tail (.exit hrunning)).trans hrun)
      refine not_hung hlaws' ?_
      rw [← shutdownSafe_setExiting] at hsafe
      rw [shutdownSafe_iff] at hsafe ⊢
      exact fun role => (balance_run role rfl hrun).2 ▸ hsafe role

/-- A consumer waits for an item when the flag is set, and the producer returns.
SOURCE: producer-consumer-problem-semaphore.c:36-105, 178-199, 213-274 -/
theorem consumer_waits_for_ever :
    ∃ s, BufferReaches 1 1 s ∧ s.shared.isExiting = true ∧ Hung s := by
  have hbefore : runSchedule [(1, 0)] (bufferInitial 1 1) =
      .ok ⟨(bufferInitial 1 1).shared, [⟨.producer, .outside, 0⟩, ⟨.consumer, .waitsToken, 0⟩]⟩ :=
    rfl
  have hafter : runSchedule [(0, 7), (0, 0)] (setExiting ⟨(bufferInitial 1 1).shared,
      [⟨.producer, .outside, 0⟩, ⟨.consumer, .waitsToken, 0⟩]⟩) =
      .ok ⟨(setExiting (bufferInitial 1 1)).shared,
        [⟨.producer, .returned, 7⟩, ⟨.consumer, .waitsToken, 0⟩]⟩ := rfl
  refine ⟨_, ((reaches_of_schedule hbefore).tail (.exit rfl)).trans (reaches_of_schedule hafter),
    rfl, ⟨⟨.consumer, .waitsToken, 0⟩, by simp, by simp⟩, ?_⟩
  intro w hw hpoint
  simp only [List.mem_cons, List.not_mem_nil, or_false] at hw
  rcases hw with rfl | rfl
  · exact absurd rfl hpoint
  · exact fun rand => rfl

end Comp30023.Analysis
