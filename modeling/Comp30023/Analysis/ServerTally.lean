import Mathlib.Algebra.Order.Ring.Int
import Mathlib.Data.List.Infix
import Comp30023.Analysis.TheoremSessionLifecycle
import Comp30023.Interface.SessionThreads

/-!
# The tally of session threads

What `clients_now_count` has to do with the session threads. A thread changes it twice, by
`1` and by `-1`, so it has not counted itself yet, is counted, or has finished. As long as
`main` is in its accept loop, the counter is the number of threads that are counted.
-/

set_option autoImplicit false

namespace Comp30023.Analysis

open Comp30023.Library Comp30023.Model Comp30023.Interface

/-! ## One thread -/

/-- The changes that these events make to `clients_now_count`, in order. -/
def nowChanges (events : List ServerEvent) : List ℤ :=
  events.filterMap fun
    | .count .clientsNowCount change => some change
    | _ => none

/-- The thread has come past its increment of `clients_now_count`. -/
def hasCounted (thread : SessionThread) : Bool := nowChanges thread.done ≠ []

/-- The thread is between its increment and its decrement of `clients_now_count`. -/
def isCounted (thread : SessionThread) : Bool := nowChanges thread.done = [1]

/-- The thread has come past its decrement of `clients_now_count`, which is the last thing it
does with the shared variables. -/
def isFinished (thread : SessionThread) : Bool := nowChanges thread.done = [1, -1]

theorem nowChanges_append (events events' : List ServerEvent) :
    nowChanges (events ++ events') = nowChanges events ++ nowChanges events' :=
  List.filterMap_append

/-- INTERNAL: the books list the changes to `clients_now_count`. -/
theorem nowChanges_of_foldlM {events : List ServerEvent} {b b' : Books}
    (h : events.foldlM Books.enter b = some b') : b'.now = b.now ++ nowChanges events := by
  induction events generalizing b with
  | nil =>
    cases h
    exact (List.append_nil _).symm
  | cons event events ih =>
    rw [List.foldlM_cons] at h
    obtain ⟨c, hc, hrest⟩ := Option.bind_eq_some_iff.mp h
    rw [ih hrest, ← List.singleton_append (x := event), nowChanges_append, ← List.append_assoc]
    congr 1
    unfold Books.enter at hc
    split at hc <;> first | (split_ifs at hc) | skip
    all_goals
      cases hc
      simp [nowChanges]

theorem nowChanges_of_books {trace : List ServerEvent} {b : Books} (h : books trace = some b) :
    nowChanges trace = b.now := by
  have hnow := nowChanges_of_foldlM h
  rw [List.nil_append] at hnow
  exact hnow.symm

/-- What a session thread of the server is like at any time: it has performed a part of its
trace, which ends it or leaves it waiting for a guess. -/
def Sound (thread : SessionThread) : Prop :=
  ThreadWith (fun s => ∃ input, Waits input s) (fun s => ∃ input, Ended input s) thread

/-- INTERNAL: the changes of a whole trace. -/
theorem Sound.trace {thread : SessionThread} (h : Sound thread) :
    nowChanges thread.session.conn.trace = if thread.isEnded then [1, -1] else [1] := by
  cases hended : thread.isEnded with
  | false =>
    obtain ⟨input, hcounted, -⟩ := h.goesOn hended
    exact nowChanges_of_books hcounted
  | true =>
    obtain ⟨input, wins, hbooks, -⟩ := h.ended hended
    exact nowChanges_of_books hbooks

/-- A thread has not counted itself yet, is counted, or has finished. -/
theorem Sound.cases {thread : SessionThread} (h : Sound thread) :
    nowChanges thread.done = [] ∨ nowChanges thread.done = [1] ∨ nowChanges thread.done = [1, -1] := by
  have hdone : nowChanges thread.done <+: nowChanges thread.session.conn.trace := by
    refine ⟨nowChanges (thread.session.conn.trace.drop thread.performed), ?_⟩
    rw [← nowChanges_append, SessionThread.done, List.take_append_drop]
  have htrace : nowChanges thread.session.conn.trace <+: [1, -1] := by
    rw [h.trace]
    cases thread.isEnded
    · exact ⟨[-1], rfl⟩
    · exact ⟨[], rfl⟩
  have hinits := (List.mem_inits _ _).mpr (hdone.trans htrace)
  simpa using hinits

/-- A new thread.
SOURCE: server.c:456, 483-538 -/
theorem sound_start (input : SessionInput) :
    Sound (SessionThread.start input) ∧ (SessionThread.start input).done = [] :=
  threadWith_start ((waits_startSession input).mono (fun _ hs => ⟨input, hs⟩)
    fun _ hs => ⟨input, hs⟩)

/-- INTERNAL: a guess is received.
SOURCE: server.c:543-581 -/
theorem Sound.receive {thread : SessionThread} (h : Sound thread) (hgoes : thread.isEnded = false)
    (r : Received) : Sound (thread.receive r) ∧ (thread.receive r).done = thread.done := by
  obtain ⟨input, hwaits⟩ := h.goesOn hgoes
  exact ThreadWith.receive h hgoes ((waits_checkGuess r thread.session hwaits).mono
    (fun _ hs => ⟨input, hs⟩) fun _ hs => ⟨input, hs⟩)

/-! ## The server -/

/-- INTERNAL: one more, one fewer or as many, when an element is replaced. -/
theorem countP_set_add {α : Type} {p : α → Bool} {l : List α} {i : ℕ} {x : α} (y : α)
    (h : l[i]? = some x) :
    (l.set i y).countP p + (if p x then 1 else 0) = l.countP p + if p y then 1 else 0 := by
  obtain ⟨hlt, hx⟩ := List.getElem?_eq_some_iff.mp h
  have hle := List.boole_getElem_le_countP (p := p) hlt
  rw [List.countP_set hlt]
  rw [hx] at hle ⊢
  omega

/-- The client takes the whole message that rejects it. -/
def TakesRejection (client : SessionInput) : Prop :=
  TakesWithin gpSize writeAttemptsMaxCount client.writes

/-- What `main` does to reject a client that takes the message. -/
def rejected : List MainEvent :=
  [.act (.lock .logFile), .log .serverFull, .act (.unlock .logFile),
    .act (.send .servFull none gpSize), .act .close, .free]

/-- What becomes of a rejection: `main` comes back, or `send_gp_message` ends it.
SOURCE: server.c:193-257, 436-453 -/
theorem rejectClient_cases (client : SessionInput) :
    (TakesRejection client ∧ rejectClient client.writes = .ok rejected) ∨
      (¬ TakesRejection client ∧ ∃ events, rejectClient client.writes = .error events) := by
  have hsend := send_cases
    { conn := { buffer := [], writes := client.writes, trace := [] }, secretCode := []
      guessesCount := 0, correctPositionsCount := 0, correctColorsCount := 0 } .servFull none
  unfold Session.send at hsend
  unfold rejectClient
  dsimp only at hsend ⊢
  cases hresult : sendGpMessage .servFull none
      { buffer := [], writes := client.writes, trace := [] } with
  | ok conn =>
    rw [hresult] at hsend
    rcases hsend with ⟨htakes, hok, htrace⟩ | ⟨-, _, _, -, -, herror, -⟩
    · refine Or.inl ⟨htakes, ?_⟩
      rw [← Except.ok.inj hok] at htrace
      dsimp only at htrace ⊢
      rw [htrace]
      rfl
    · cases herror
  | error conn =>
    rw [hresult] at hsend
    rcases hsend with ⟨-, hok, -⟩ | ⟨htakes, -⟩
    · cases hok
    · exact Or.inr ⟨htakes, _, rfl⟩

/-- INTERNAL: where `main` goes from there. -/
theorem rejecting_cases (client : SessionInput) :
    (TakesRejection client ∧ rejecting client = .finishing rejected true) ∨
      (¬ TakesRejection client ∧ ∃ events, rejecting client = .finishing events false) := by
  unfold rejecting
  rcases rejectClient_cases client with ⟨htakes, h⟩ | ⟨htakes, events, h⟩
  · rw [h]
    exact Or.inl ⟨htakes, rfl⟩
  · rw [h]
    exact Or.inr ⟨htakes, events, rfl⟩

/-- `main` is in its accept loop and will not leave it before the next client. -/
def isInLoop : MainPoint → Bool
  | .finishing _ comesBack => comesBack
  | .exited => false
  | _ => true

/-- These events change no counter. -/
def CountsNothing (events : List MainEvent) : Prop :=
  ∀ counter change, .act (.count counter change) ∉ events

/-- The tally is right: as long as `main` is in its loop, the counter is the number of threads
that are counted, and what `main` is doing does not change it. -/
structure Tally (σ : ServerState) : Prop where
  sound : ∀ thread ∈ σ.threads, Sound thread
  events : ∀ events, σ.main = .finishing events true → CountsNothing events
  count : isInLoop σ.main = true → σ.shared.clientsNowCount = σ.threads.countP isCounted

theorem tally_initial (argument : Option (List UInt8)) : Tally (ServerState.initial argument) :=
  ⟨by simp [ServerState.initial], fun _ h => (by cases h), fun _ => rfl⟩

/-- INTERNAL: an event of a thread, for the counter and for the thread.
SOURCE: server.c:161-175 -/
theorem perform_nowChanges {shared shared' : Shared} {event : ServerEvent}
    (h : shared.perform event = some shared') :
    (nowChanges [event] = [] ∧ shared'.clientsNowCount = shared.clientsNowCount) ∨
      ∃ change, nowChanges [event] = [change] ∧
        shared'.clientsNowCount = shared.clientsNowCount + change := by
  unfold Shared.perform at h
  split at h <;> first | (split_ifs at h) | skip
  all_goals
    cases h
    simp [nowChanges]

/-- INTERNAL: what an event does to the number of threads that are counted, it does to the
counter. -/
theorem Sound.isCounted_next {thread : SessionThread} {event : ServerEvent} {shared shared' : Shared}
    (h : Sound thread) (hevent : thread.session.conn.trace[thread.performed]? = some event)
    (hperform : shared.perform event = some shared') :
    shared'.clientsNowCount - shared.clientsNowCount =
      (if isCounted thread.next then 1 else 0) - if isCounted thread then 1 else 0 := by
  have hnext : nowChanges thread.next.done = nowChanges thread.done ++ nowChanges [event] := by
    rw [done_next hevent, nowChanges_append]
  have hcases := (Sound.cases (ThreadWith.next h hevent))
  unfold isCounted
  rcases perform_nowChanges hperform with ⟨hnone, hsame⟩ | ⟨change, hone, hadd⟩
  · rw [hnext, hnone, List.append_nil, hsame]
    omega
  · rw [hnext, hone] at hcases ⊢
    rw [hadd]
    -- a first change is the increment, a second one the decrement
    rcases h.cases with hdone | hdone | hdone
    · rw [hdone] at hcases ⊢
      obtain rfl : change = 1 := by simpa using hcases
      simp
    · rw [hdone] at hcases ⊢
      obtain rfl : change = -1 := by simpa using hcases
      simp
    · rw [hdone] at hcases
      simp at hcases

/-- INTERNAL: events of `main` that are no counts. -/
theorem performMain_of_countsNothing {shared shared' : Shared} {event : MainEvent}
    {events : List MainEvent} (h : CountsNothing (event :: events))
    (hperform : shared.performMain event = some shared') :
    shared'.clientsNowCount = shared.clientsNowCount := by
  cases event with
  | log line =>
    cases hperform
    rfl
  | free =>
    cases hperform
    rfl
  | act event =>
    rcases perform_nowChanges hperform with ⟨-, hsame⟩ | ⟨change, hone, -⟩
    · exact hsame
    · cases event with
      | count counter change => exact absurd List.mem_cons_self (h counter change)
      | _ => simp [nowChanges] at hone

/-- INTERNAL: a thread of the server is replaced by what it becomes. -/
theorem sound_set {threads : List SessionThread} {i : ℕ} {thread : SessionThread}
    (h : ∀ t ∈ threads, Sound t) (hthread : Sound thread) : ∀ t ∈ threads.set i thread, Sound t := by
  intro t ht
  rcases List.mem_or_eq_of_mem_set ht with hmem | rfl
  · exact h t hmem
  · exact hthread

/-- One turn keeps the tally right.
SOURCE: server.c:411-474, 483-623 -/
theorem tally_step {σ τ : ServerState} (h : Tally σ) (hstep : ServerStep σ τ) : Tally τ := by
  cases hstep with
  | retry hmain => exact h
  | accept hmain client =>
    exact ⟨h.sound, fun _ he => (by cases he), fun _ => h.count (by rw [hmain]; rfl)⟩
  | @full client hmain hfull =>
    refine ⟨h.sound, fun events he => ?_, fun _ => h.count (by rw [hmain]; rfl)⟩
    rcases rejecting_cases client with ⟨-, hrejecting⟩ | ⟨-, _, hrejecting⟩
    · obtain ⟨rfl, -⟩ := MainPoint.finishing.inj (hrejecting.symm.trans he)
      simp [CountsNothing, rejected]
    · cases hrejecting.symm.trans he
  | room hmain hroom =>
    exact ⟨h.sound, fun _ he => (by cases he), fun _ => h.count (by rw [hmain]; rfl)⟩
  | create hmain =>
    refine ⟨fun thread hthread => ?_, fun _ he => (by cases he), fun _ => ?_⟩
    · rcases List.mem_append.mp hthread with hold | hnew
      · exact h.sound thread hold
      · rw [List.mem_singleton.mp hnew]
        exact (sound_start _).1
    · have hcount := h.count (by rw [hmain]; rfl)
      simp [hcount, isCounted, (sound_start _).2, nowChanges]
  | createFails hmain =>
    refine ⟨h.sound, fun events he => ?_, fun _ => h.count (by rw [hmain]; rfl)⟩
    obtain ⟨rfl, -⟩ := MainPoint.finishing.inj he
    simp [CountsNothing, createFailed]
  | mainEvent hmain hperform =>
    refine ⟨h.sound, fun events he => ?_, fun hloop => ?_⟩
    · obtain ⟨rfl, rfl⟩ := MainPoint.finishing.inj he
      exact fun counter change hmem =>
        h.events _ hmain counter change (List.mem_cons_of_mem _ hmem)
    · have hback : _ = true := hloop
      subst hback
      rw [← h.count (by rw [hmain]; rfl)]
      exact performMain_of_countsNothing (h.events _ hmain) hperform
  | comeBack hmain =>
    exact ⟨h.sound, fun _ he => (by cases he), fun _ => h.count (by rw [hmain]; rfl)⟩
  | exit hmain => exact ⟨h.sound, fun _ he => (by cases he), fun hloop => by cases hloop⟩
  | @threadEvent i thread event shared hthread hevent hperform =>
    have hsound := h.sound _ (List.mem_of_getElem? hthread)
    refine ⟨sound_set h.sound (ThreadWith.next hsound hevent), h.events, fun hloop => ?_⟩
    have hcount := h.count hloop
    have hnext := hsound.isCounted_next hevent hperform
    have hset := countP_set_add (p := isCounted) thread.next hthread
    show shared.clientsNowCount = ((σ.threads.set i thread.next).countP isCounted : ℕ)
    split_ifs at hnext hset <;> omega
  | @receive i thread r hthread hdone hgoes hreceive =>
    obtain ⟨hsound, hsame⟩ := (h.sound _ (List.mem_of_getElem? hthread)).receive hgoes r
    refine ⟨sound_set h.sound hsound, h.events, fun hloop => ?_⟩
    have hcounted : isCounted (thread.receive r) = isCounted thread := by
      unfold isCounted
      rw [hsame]
    have hset := countP_set_add (p := isCounted) (thread.receive r) hthread
    rw [hcounted, Nat.add_right_cancel_iff] at hset
    show σ.shared.clientsNowCount = ((σ.threads.set i (thread.receive r)).countP isCounted : ℕ)
    rw [hset]
    exact h.count hloop

/-- The tally is right in every reachable state. -/
theorem tally_of_reachable {argument : Option (List UInt8)} {σ : ServerState}
    (h : Relation.ReflTransGen ServerStep (ServerState.initial argument) σ) : Tally σ := by
  induction h with
  | refl => exact tally_initial argument
  | tail _ hstep ih => exact tally_step ih hstep

end Comp30023.Analysis
