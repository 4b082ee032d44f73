import Comp30023.Analysis.ServerTally

/-!
# Rejected clients and the cap on clients

Two things the accept loop of `main` is there for: to send clients away when the server is
full, without harm to the others, and to keep the number of session threads below a cap.

It calls `send_gp_message`, which ends its thread and counts it out when the message cannot be
sent. That is right for a session thread, but `main` is not counted and must not end, so a
rejected client that hangs up takes the server down. And it tests a counter that a thread
increments some time after it was created, so the threads that are on their way to their
increment are missing from the test.
-/

set_option autoImplicit false

namespace Comp30023.Analysis

open Comp30023.Library Comp30023.Model Comp30023.Interface

/-! ## Rejected clients -/

/-- The rejection of the client does no harm: `main` comes back to `accept()`, and has changed
no counter, closed the socket once and released `pthread_arg` once. -/
def HarmlessRejection (client : SessionInput) : Prop :=
  ∃ events, rejectClient client.writes = .ok events ∧ CountsNothing events ∧
    events.count (.act .close) = 1 ∧ events.count .free = 1

/-- A turn of the server; a client that `main` rejects in it takes the message. -/
def TakenStep (σ τ : ServerState) : Prop :=
  ServerStep σ τ ∧
    ∀ client, σ.main = .testing client → τ.main = rejecting client → TakesRejection client

theorem serverRun_of_taken {σ τ : ServerState} (h : Relation.ReflTransGen TakenStep σ τ) :
    Relation.ReflTransGen ServerStep σ τ :=
  Relation.ReflTransGen.mono (fun _ _ hstep => hstep.1) _ _ h

/-- INTERNAL: `main` stays in its loop. -/
theorem inLoop_takenStep {σ τ : ServerState} (h : isInLoop σ.main = true) (hstep : TakenStep σ τ) :
    isInLoop τ.main = true := by
  obtain ⟨hstep, htaken⟩ := hstep
  cases hstep with
  | retry hmain => exact h
  | accept hmain client => rfl
  | @full client hmain hfull =>
    show isInLoop (rejecting client) = true
    rcases rejecting_cases client with ⟨-, hrejecting⟩ | ⟨hlost, -⟩
    · rw [hrejecting]
      rfl
    · exact absurd (htaken client hmain rfl) hlost
  | room hmain hroom => rfl
  | create hmain => rfl
  | createFails hmain => rfl
  | mainEvent hmain hperform =>
    rw [hmain] at h
    exact h
  | comeBack hmain => rfl
  | exit hmain =>
    rw [hmain] at h
    exact h
  | threadEvent hthread hevent hperform => exact h
  | receive hthread hdone hgoes hreceive => exact h

/-- **When rejecting a client is harmless.** The rejection of a client does no harm exactly if
the client takes the whole message in few enough writes. In every run in which all rejected
clients do, `clients_now_count` is always the number of session threads between their
increment and their decrement of it, and `main` is always in its accept loop.
SOURCE: server.c:193-257, 411-474 -/
theorem rejection_harmless_when_taken (argument : Option (List UInt8)) :
    (∀ client, HarmlessRejection client ↔
        TakesWithin gpSize writeAttemptsMaxCount client.writes) ∧
      ∀ σ, Relation.ReflTransGen TakenStep (ServerState.initial argument) σ →
        σ.shared.clientsNowCount = σ.threads.countP isCounted ∧ isInLoop σ.main = true := by
  constructor
  · intro client
    unfold HarmlessRejection
    rcases rejectClient_cases client with ⟨htakes, h⟩ | ⟨htakes, events, h⟩
    · refine iff_of_true ⟨rejected, h, ?_, by decide, by decide⟩ htakes
      simp [CountsNothing, rejected]
    · refine iff_of_false ?_ htakes
      rintro ⟨events', h', -⟩
      cases h.symm.trans h'
  · intro σ hσ
    have htally := tally_of_reachable (serverRun_of_taken hσ)
    have hloop : isInLoop σ.main = true := by
      clear htally
      induction hσ with
      | refl => rfl
      | tail _ hstep ih => exact inLoop_takenStep ih hstep
    exact ⟨htally.count hloop, hloop⟩

/-! ## A server with many clients -/

/-- A turn of the server; if `main` finds room for a client in it, then there is room also
when the threads that have not counted themselves yet are taken into account. -/
def RoomStep (σ τ : ServerState) : Prop :=
  ServerStep σ τ ∧
    ∀ client, σ.main = .testing client → τ.main = .creating client →
      σ.shared.clientsNowCount + σ.threads.countP (fun t => !hasCounted t) < clientsNowMaxCount

/-- A turn in which neither of the two things goes wrong that are looked at here. -/
def CalmStep (σ τ : ServerState) : Prop := TakenStep σ τ ∧ RoomStep σ τ

/-- INTERNAL: a turn in which `main` rejects nobody. -/
theorem takenStep_of_ne {σ τ : ServerState} (hstep : ServerStep σ τ)
    (h : ∀ events comesBack, τ.main ≠ .finishing events comesBack) : TakenStep σ τ := by
  refine ⟨hstep, fun client _ hrejecting => ?_⟩
  rcases rejecting_cases client with ⟨-, h'⟩ | ⟨-, events, h'⟩
  · exact absurd (hrejecting.trans h') (h _ _)
  · exact absurd (hrejecting.trans h') (h _ _)

/-- INTERNAL: a turn behind which `main` is in `accept()`, or about to test for room. -/
theorem calmStep_of_ne {σ τ : ServerState} (hstep : ServerStep σ τ)
    (h : ∀ events comesBack, τ.main ≠ .finishing events comesBack)
    (hcreating : ∀ client, τ.main ≠ .creating client) : CalmStep σ τ :=
  ⟨takenStep_of_ne hstep h, hstep, fun client _ hτ => absurd hτ (hcreating client)⟩

/-- INTERNAL: a thread performs some events on end while `main` is in `accept()`. -/
theorem threadEvents_run (events : List ServerEvent) {σ : ServerState} {i : ℕ}
    {thread : SessionThread} {shared : Shared} (hmain : σ.main = .accepting)
    (hthread : σ.threads[i]? = some thread)
    (hevents : events <+: thread.session.conn.trace.drop thread.performed)
    (hperform : events.foldlM Shared.perform σ.shared = some shared) :
    Relation.ReflTransGen CalmStep σ
      { σ with
        shared := shared
        threads := σ.threads.set i
          { thread with performed := thread.performed + events.length } } := by
  induction events generalizing σ thread with
  | nil =>
    cases hperform
    have hset : σ.threads.set i thread = σ.threads := by
      obtain ⟨hlt, rfl⟩ := List.getElem?_eq_some_iff.mp hthread
      exact List.set_getElem_self hlt
    simp only [List.length_nil, Nat.add_zero]
    rw [hset]
  | cons event events ih =>
    obtain ⟨shared₁, hone, hrest⟩ := Option.bind_eq_some_iff.mp hperform
    obtain ⟨rest, hrest'⟩ := hevents
    have hevent : thread.session.conn.trace[thread.performed]? = some event := by
      have hhead := congrArg List.head? hrest'
      rw [List.head?_drop] at hhead
      exact hhead.symm
    have hnext : events <+: thread.next.session.conn.trace.drop thread.next.performed := by
      refine ⟨rest, ?_⟩
      have htail := congrArg List.tail hrest'
      rw [List.tail_drop] at htail
      exact htail
    have hstep := ServerStep.threadEvent hthread hevent hone
    have hlt := (List.getElem?_eq_some_iff.mp hthread).1
    have hrun := ih (σ := { σ with shared := shared₁, threads := σ.threads.set i thread.next })
      hmain (List.getElem?_set_self hlt) hnext hrest
    refine Relation.ReflTransGen.head (calmStep_of_ne hstep ?_ ?_) ?_
    · intro events comesBack
      rw [hmain]
      simp
    · intro client
      rw [hmain]
      simp
    · simpa [List.set_set, SessionThread.next, Nat.add_assoc, Nat.add_comm 1] using hrun

/-- A client whose socket takes everything. -/
def patientClient : SessionInput :=
  { secretCode := [], stackBuffer := [], rand := fun _ => 0, reads := [], writes := [] }

/-- The session thread of that client, created by a server without a code of its own. -/
def newThread : SessionThread :=
  SessionThread.start
    { patientClient with secretCode := strncpy (mainSecretCode none) (secretCodeLen + 1) }

/-- What a session thread does before its first message. -/
def entering : List ServerEvent :=
  [.lock .logFile, .log .clientConnected] ++ incrementClientsNowCount ++ incrementClientsCount ++
    [.log (.serverSecret (ascii "AAAA")), .unlock .logFile]

/-- A server with so many session threads, all of which have counted themselves. -/
def crowdedServer (n : ℕ) : ServerState :=
  { shared := { clientsNowCount := n, clientsCount := n, clientsWinCount := 0, held := [] }
    secretCode := mainSecretCode none
    main := .accepting
    threads := List.replicate n { newThread with performed := newThread.performed + entering.length } }

/-- INTERNAL: a thread is created for the client. -/
theorem create_run {σ : ServerState} (hmain : σ.main = .accepting)
    (hsecret : σ.secretCode = mainSecretCode none) :
    ServerStep { σ with main := .creating patientClient }
      { σ with threads := σ.threads ++ [newThread] } := by
  have hstep := ServerStep.create (σ := { σ with main := .creating patientClient }) rfl
  rw [show σ.secretCode = _ from hsecret] at hstep
  obtain ⟨shared, secretCode, main, threads⟩ := σ
  simp only at hmain hsecret hstep ⊢
  subst hmain hsecret
  exact hstep

/-- INTERNAL: a client is accepted while there is room, and a thread is created for it. -/
theorem accepts_run {σ : ServerState} (hmain : σ.main = .accepting)
    (hsecret : σ.secretCode = mainSecretCode none)
    (hroom : σ.shared.clientsNowCount + σ.threads.countP (fun t => !hasCounted t) <
      clientsNowMaxCount) :
    Relation.ReflTransGen CalmStep σ { σ with threads := σ.threads ++ [newThread] } := by
  have haccept : CalmStep σ { σ with main := .testing patientClient } :=
    calmStep_of_ne (.accept hmain patientClient) (by simp) (by simp)
  have htest : CalmStep { σ with main := .testing patientClient }
      { σ with main := .creating patientClient } := by
    have hstep := ServerStep.room (σ := { σ with main := .testing patientClient }) rfl
      (show σ.shared.clientsNowCount < clientsNowMaxCount by omega)
    exact ⟨takenStep_of_ne hstep (by simp), hstep, fun _ _ _ => hroom⟩
  have hcreate : CalmStep { σ with main := .creating patientClient }
      { σ with threads := σ.threads ++ [newThread] } :=
    calmStep_of_ne (create_run hmain hsecret) (by simp [hmain]) (by simp [hmain])
  exact ((Relation.ReflTransGen.single haccept).tail htest).tail hcreate

/-- INTERNAL: one more client, whose thread counts itself at once. -/
theorem crowdedServer_succ {n : ℕ} (h : (n : ℤ) < clientsNowMaxCount) :
    Relation.ReflTransGen CalmStep (crowdedServer n) (crowdedServer (n + 1)) := by
  have hcounted : hasCounted { newThread with performed := newThread.performed + entering.length } =
      true := by decide +kernel
  have hnone : (crowdedServer n).threads.countP (fun t => !hasCounted t) = 0 := by
    refine List.countP_eq_zero.mpr fun t ht => ?_
    rw [List.eq_of_mem_replicate ht, hcounted]
    decide
  have hroom : (crowdedServer n).shared.clientsNowCount +
      (crowdedServer n).threads.countP (fun t => !hasCounted t) < clientsNowMaxCount := by
    rw [hnone, Nat.cast_zero, add_zero]
    exact h
  refine (accepts_run (σ := crowdedServer n) rfl rfl hroom).trans ?_
  have hevents : entering <+: newThread.session.conn.trace.drop newThread.performed := by
    decide +kernel
  have hnew : ((crowdedServer n).threads ++ [newThread])[n]? = some newThread := by
    simp [crowdedServer]
  have hperform : entering.foldlM Shared.perform (crowdedServer n).shared =
      some (crowdedServer (n + 1)).shared := rfl
  have hrun := threadEvents_run entering
    (σ := { crowdedServer n with threads := (crowdedServer n).threads ++ [newThread] }) rfl hnew
    hevents hperform
  have hthreads : ((crowdedServer n).threads ++ [newThread]).set n
      { newThread with performed := newThread.performed + entering.length } =
        (crowdedServer (n + 1)).threads := by
    simp only [crowdedServer]
    rw [List.set_append_right _ _ (by simp), List.replicate_succ']
    simp
  rw [hthreads] at hrun
  exact hrun

/-- INTERNAL: the server can be crowded up to its cap. -/
theorem crowdedServer_run {n : ℕ} (h : (n : ℤ) ≤ clientsNowMaxCount) :
    Relation.ReflTransGen CalmStep (ServerState.initial none) (crowdedServer n) := by
  induction n with
  | zero => exact Relation.ReflTransGen.refl
  | succ n ih =>
    have hlt : (n : ℤ) < clientsNowMaxCount := by omega
    exact (ih hlt.le).trans (crowdedServer_succ hlt)

/-- INTERNAL: in particular if only rejections are looked at. -/
theorem takenRun_of_calm {σ τ : ServerState} (h : Relation.ReflTransGen CalmStep σ τ) :
    Relation.ReflTransGen TakenStep σ τ :=
  Relation.ReflTransGen.mono (fun _ _ hstep => hstep.1) _ _ h

/-- A full server that rejects a client, which takes the message.
SOURCE: server.c:436-453 -/
theorem rejection_harmless_when_taken_full :
    HarmlessRejection patientClient ∧
      ∃ σ, Relation.ReflTransGen TakenStep (ServerState.initial none) σ ∧
        σ.main = .finishing rejected true ∧ σ.threads.length = 40 ∧
        σ.shared.clientsNowCount = σ.threads.countP isCounted ∧ isInLoop σ.main = true := by
  obtain ⟨hharmless, hrun⟩ := rejection_harmless_when_taken none
  have htakes : TakesRejection patientClient := trivial
  have hrejecting : rejecting patientClient = .finishing rejected true := by
    rcases rejecting_cases patientClient with ⟨-, h⟩ | ⟨hlost, -⟩
    · exact h
    · exact absurd htakes hlost
  have haccept : TakenStep (crowdedServer 40)
      { crowdedServer 40 with main := .testing patientClient } :=
    takenStep_of_ne (.accept rfl patientClient) (by simp)
  have hfull : TakenStep { crowdedServer 40 with main := .testing patientClient }
      { crowdedServer 40 with main := rejecting patientClient } := by
    refine ⟨.full rfl (by decide), fun client hclient _ => ?_⟩
    cases hclient
    exact htakes
  have hσ := ((takenRun_of_calm (crowdedServer_run (n := 40) (by decide))).tail haccept).tail hfull
  exact ⟨(hharmless patientClient).mpr htakes, _, hσ, hrejecting, by simp [crowdedServer],
    hrun _ hσ⟩

/-- INTERNAL: `main` performs the events it has to go. -/
theorem mainEvents_run (events : List MainEvent) {σ : ServerState} {comesBack : Bool}
    {shared : Shared} (hmain : σ.main = .finishing events comesBack)
    (hperform : events.foldlM Shared.performMain σ.shared = some shared) :
    Relation.ReflTransGen ServerStep σ
      { σ with shared := shared, main := .finishing [] comesBack } := by
  induction events generalizing σ with
  | nil =>
    cases hperform
    rw [← hmain]
  | cons event events ih =>
    obtain ⟨shared₁, hone, hrest⟩ := Option.bind_eq_some_iff.mp hperform
    have hrun := ih (σ := { σ with shared := shared₁, main := .finishing events comesBack }) rfl hrest
    exact Relation.ReflTransGen.head (.mainEvent hmain hone) hrun

/-- A client that is gone when it is rejected. -/
def lostClient : SessionInput := { patientClient with writes := [.epipe] }

/-- What `main` does to reject that client. -/
def lostRejection : List MainEvent :=
  [.act (.lock .logFile), .log .serverFull, .act (.unlock .logFile),
    .act (.send .servFull none writeConnLostError)] ++ connLostEvents.map .act

/-- A rejection that does harm: the client is gone, `main` counts itself out and ends, with
forty sessions going on and thirty-nine counted.
SOURCE: server.c:216-231, 447 -/
theorem rejection_of_lost_client_ends_main :
    ∃ σ, Relation.ReflTransGen ServerStep (ServerState.initial none) σ ∧ σ.main = .exited ∧
      σ.shared.clientsNowCount = 39 ∧ σ.threads.countP isCounted = 40 := by
  have haccept : ServerStep (crowdedServer 40)
      { crowdedServer 40 with main := .testing lostClient } := .accept rfl lostClient
  have hfull : ServerStep { crowdedServer 40 with main := .testing lostClient }
      { crowdedServer 40 with main := rejecting lostClient } := .full rfl (by decide)
  have hperform : lostRejection.foldlM Shared.performMain (crowdedServer 40).shared =
      some { (crowdedServer 40).shared with clientsNowCount := 39 } := rfl
  have hevents := mainEvents_run lostRejection
    (σ := { crowdedServer 40 with main := rejecting lostClient })
    (show rejecting lostClient = .finishing lostRejection false from rfl) hperform
  have hcrowd := serverRun_of_taken (takenRun_of_calm (crowdedServer_run (n := 40) (by decide)))
  have hσ := ((hcrowd.tail haccept).tail hfull).trans hevents
  refine ⟨_, hσ.tail (.exit rfl), rfl, rfl, ?_⟩
  have hcounted : isCounted { newThread with performed := newThread.performed + entering.length } =
      true := by
    decide +kernel
  simp [crowdedServer, hcounted]

/-! ## The cap -/

/-- The number of session threads that have not finished. -/
def unfinishedCount (σ : ServerState) : ℕ := σ.threads.countP fun t => !isFinished t

/-- INTERNAL: the unfinished threads are those that have not counted themselves and those that
are counted. -/
theorem unfinishedCount_eq {σ : ServerState} (h : Tally σ) :
    unfinishedCount σ = σ.threads.countP (fun t => !hasCounted t) + σ.threads.countP isCounted := by
  have hsound := h.sound
  unfold unfinishedCount
  generalize σ.threads = threads at hsound ⊢
  induction threads with
  | nil => rfl
  | cons thread threads ih =>
    have hrest := ih fun t ht => hsound t (List.mem_cons_of_mem _ ht)
    simp only [List.countP_cons, hrest]
    have hone : (if (!isFinished thread) = true then 1 else 0) =
        (if (!hasCounted thread) = true then 1 else 0) + if isCounted thread = true then 1 else 0 := by
      unfold isFinished hasCounted isCounted
      rcases (hsound thread List.mem_cons_self).cases with hdone | hdone | hdone
      · rw [hdone]
        decide
      · rw [hdone]
        decide
      · rw [hdone]
        decide
    omega

/-- INTERNAL: a thread that has finished has finished for good. -/
theorem isFinished_next {thread : SessionThread} {event : ServerEvent} (h : Sound thread)
    (hevent : thread.session.conn.trace[thread.performed]? = some event)
    (hfinished : isFinished thread = true) : isFinished thread.next = true := by
  have hcases := Sound.cases (ThreadWith.next h hevent)
  unfold isFinished at hfinished ⊢
  rw [decide_eq_true_eq] at hfinished ⊢
  rw [done_next hevent, nowChanges_append, hfinished] at hcases ⊢
  simpa using hcases

/-- INTERNAL: a replaced thread that is finished if the old one was. -/
theorem unfinished_set_le {threads : List SessionThread} {i : ℕ} {thread thread' : SessionThread}
    (hthread : threads[i]? = some thread)
    (h : isFinished thread = true → isFinished thread' = true) :
    (threads.set i thread').countP (fun t => !isFinished t) ≤
      threads.countP fun t => !isFinished t := by
  have hset := countP_set_add (p := fun t => !isFinished t) thread' hthread
  cases hold : isFinished thread with
  | true =>
    simp only [hold, h hold, Bool.not_true, Bool.false_eq_true, if_false] at hset
    omega
  | false =>
    simp only [hold, Bool.not_false, if_true] at hset
    split_ifs at hset <;> omega

/-- The cap is kept, with room for one more while `main` is about to create a thread. -/
structure Capped (σ : ServerState) : Prop where
  tally : Tally σ
  cap : (unfinishedCount σ : ℤ) ≤ clientsNowMaxCount
  creating : ∀ client, σ.main = .creating client → (unfinishedCount σ : ℤ) < clientsNowMaxCount

/-- INTERNAL: nothing changes for the cap while the threads stay, unless there is room. -/
theorem Capped.of_main {σ : ServerState} {shared : Shared} {main : MainPoint} (h : Capped σ)
    (htally : Tally { σ with shared := shared, main := main })
    (hmain : ∀ client, main ≠ .creating client) : Capped { σ with shared := shared, main := main } :=
  ⟨htally, h.cap, fun client hclient => absurd hclient (hmain client)⟩

/-- INTERNAL: a turn of a session thread. -/
theorem Capped.of_set {σ : ServerState} {shared : Shared} {i : ℕ} {thread thread' : SessionThread}
    (h : Capped σ) (hthread : σ.threads[i]? = some thread)
    (hfinished : isFinished thread = true → isFinished thread' = true)
    (htally : Tally { σ with shared := shared, threads := σ.threads.set i thread' }) :
    Capped { σ with shared := shared, threads := σ.threads.set i thread' } := by
  have hle := unfinished_set_le hthread hfinished
  refine ⟨htally, ?_, fun client hclient => ?_⟩
  · have hcap := h.cap
    unfold unfinishedCount at hcap ⊢
    show ((σ.threads.set i thread').countP _ : ℤ) ≤ _
    omega
  · have hcap := h.creating client hclient
    unfold unfinishedCount at hcap ⊢
    show ((σ.threads.set i thread').countP _ : ℤ) < _
    omega

/-- One turn keeps the cap.
SOURCE: server.c:411-474, 483-623 -/
theorem capped_step {σ τ : ServerState} (h : Capped σ) (hstep : RoomStep σ τ) : Capped τ := by
  obtain ⟨hstep, hroom⟩ := hstep
  have htally := tally_step h.tally hstep
  cases hstep with
  | retry hmain => exact h
  | accept hmain client => exact h.of_main htally (by simp)
  | @full client hmain hfull =>
    apply h.of_main htally
    intro c hc
    rcases rejecting_cases client with ⟨-, h'⟩ | ⟨-, _, h'⟩
    · cases h'.symm.trans hc
    · cases h'.symm.trans hc
  | @room client hmain hlt =>
    refine ⟨htally, h.cap, fun _ _ => ?_⟩
    have hcount := h.tally.count (by rw [hmain]; rfl)
    have hall := hroom client hmain rfl
    have hunfinished := unfinishedCount_eq h.tally
    rw [hcount] at hall
    show (unfinishedCount σ : ℤ) < _
    rw [hunfinished]
    push_cast
    omega
  | @create client hmain =>
    refine ⟨htally, ?_, fun _ hc => by cases hc⟩
    have hlt := h.creating client hmain
    unfold unfinishedCount at hlt ⊢
    rw [List.countP_append]
    have hone := List.countP_le_length (p := fun t => !isFinished t) (l := [SessionThread.start
      { client with secretCode := strncpy σ.secretCode (secretCodeLen + 1) }])
    rw [List.length_singleton] at hone
    push_cast
    omega
  | createFails hmain => exact h.of_main htally (by simp)
  | mainEvent hmain hperform => exact h.of_main htally (by simp)
  | comeBack hmain => exact h.of_main htally (by simp)
  | exit hmain => exact h.of_main htally (by simp)
  | @threadEvent i thread event shared hthread hevent hperform =>
    have hsound := h.tally.sound _ (List.mem_of_getElem? hthread)
    exact h.of_set hthread (isFinished_next hsound hevent) htally
  | @receive i thread r hthread hdone hgoes hreceive =>
    obtain ⟨-, hsame⟩ := (h.tally.sound _ (List.mem_of_getElem? hthread)).receive hgoes r
    refine h.of_set hthread (fun hfinished => ?_) htally
    unfold isFinished at hfinished ⊢
    rw [hsame]
    exact hfinished

/-- **When the cap on clients holds.** In every run in which `main` finds room only while
`clients_now_count` and the threads that have not incremented it yet are together below the
cap, no more session threads than the cap allows are created and unfinished. And where `main`
finds room although they are not, its next two turns bring it over the cap.
SOURCE: server.c:411-474, 483-525 -/
theorem client_cap_when_counted (argument : Option (List UInt8)) (σ : ServerState) :
    (Relation.ReflTransGen RoomStep (ServerState.initial argument) σ →
      (unfinishedCount σ : ℤ) ≤ clientsNowMaxCount) ∧
    (Relation.ReflTransGen ServerStep (ServerState.initial argument) σ →
      ∀ client, σ.main = .testing client → σ.shared.clientsNowCount < clientsNowMaxCount →
        clientsNowMaxCount ≤ σ.shared.clientsNowCount +
          σ.threads.countP (fun t => !hasCounted t) →
        ∃ τ, Relation.ReflTransGen ServerStep σ τ ∧
          clientsNowMaxCount < (unfinishedCount τ : ℤ)) := by
  constructor
  · intro hσ
    have hcapped : Capped σ := by
      induction hσ with
      | refl => exact ⟨tally_initial argument, show (0 : ℤ) ≤ 40 by decide, fun _ h => by cases h⟩
      | tail _ hstep ih => exact capped_step ih hstep
    exact hcapped.cap
  · intro hσ client hmain hroom hfull
    have htally := tally_of_reachable hσ
    have hcount := htally.count (by rw [hmain]; rfl)
    have htest : ServerStep σ { σ with main := .creating client } := .room hmain hroom
    have hcreate := ServerStep.create (σ := { σ with main := .creating client }) rfl
    refine ⟨_, (Relation.ReflTransGen.single htest).tail hcreate, ?_⟩
    have hunfinished := unfinishedCount_eq htally
    unfold unfinishedCount at hunfinished ⊢
    rw [List.countP_append, List.countP_singleton]
    have hnew : isFinished (SessionThread.start
        { client with secretCode := strncpy σ.secretCode (secretCodeLen + 1) }) = false := by
      simp [isFinished, (sound_start _).2, nowChanges]
    simp only [hnew, Bool.not_false, if_true]
    rw [hunfinished]
    push_cast
    omega

/-- A server with so many session threads, none of which has done anything yet. -/
def hurriedServer (n : ℕ) : ServerState :=
  { ServerState.initial none with threads := List.replicate n newThread }

/-- INTERNAL: `main` can create any number of threads before one of them counts itself. -/
theorem hurriedServer_run (n : ℕ) :
    Relation.ReflTransGen ServerStep (ServerState.initial none) (hurriedServer n) := by
  induction n with
  | zero => exact Relation.ReflTransGen.refl
  | succ n ih =>
    have haccept : ServerStep (hurriedServer n)
        { hurriedServer n with main := .testing patientClient } := .accept rfl patientClient
    have htest : ServerStep { hurriedServer n with main := .testing patientClient }
        { hurriedServer n with main := .creating patientClient } :=
      .room rfl (show (0 : ℤ) < 40 by decide)
    have hcreate : ServerStep { hurriedServer n with main := .creating patientClient } _ :=
      create_run (σ := hurriedServer n) rfl rfl
    have hthreads : (hurriedServer n).threads ++ [newThread] = List.replicate (n + 1) newThread :=
      List.replicate_succ'.symm
    rw [hthreads] at hcreate
    exact ((ih.tail haccept).tail htest).tail hcreate

/-- Both halves on a server with forty sessions: they are all counted, or they were created in a
hurry.
SOURCE: server.c:436, 456 -/
theorem client_cap_when_counted_both :
    (unfinishedCount (crowdedServer 40) = 40 ∧
      (unfinishedCount (crowdedServer 40) : ℤ) ≤ clientsNowMaxCount) ∧
      ∃ τ, Relation.ReflTransGen ServerStep (hurriedServer 40) τ ∧
        clientsNowMaxCount < (unfinishedCount τ : ℤ) := by
  constructor
  · have hunfinished : isFinished
        { newThread with performed := newThread.performed + entering.length } = false := by
      decide +kernel
    refine ⟨by simp [unfinishedCount, crowdedServer, hunfinished],
      (client_cap_when_counted none _).1 ?_⟩
    exact Relation.ReflTransGen.mono (fun _ _ hstep => hstep.2) _ _
      (crowdedServer_run (n := 40) (by decide))
  · have haccept : ServerStep (hurriedServer 40)
        { hurriedServer 40 with main := .testing patientClient } := .accept rfl patientClient
    have huncounted : hasCounted newThread = false := by decide +kernel
    obtain ⟨τ, hrun, hτ⟩ := (client_cap_when_counted none _).2
      ((hurriedServer_run 40).tail haccept) patientClient rfl (show (0 : ℤ) < 40 by decide)
      (by simp [hurriedServer, ServerState.initial, huncounted, clientsNowMaxCount])
    exact ⟨τ, hrun.head haccept, hτ⟩

/-- Forty-one session threads, all created before the first of them counted itself.
SOURCE: server.c:436, 456, 512 -/
theorem forty_one_unfinished_threads :
    ∃ σ, Relation.ReflTransGen ServerStep (ServerState.initial none) σ ∧
      clientsNowMaxCount < (unfinishedCount σ : ℤ) := by
  have hnew : isFinished newThread = false := by decide +kernel
  refine ⟨hurriedServer 41, hurriedServer_run 41, ?_⟩
  simp [unfinishedCount, hurriedServer, hnew, clientsNowMaxCount]

end Comp30023.Analysis
