import Mathlib.Algebra.Order.Ring.Nat
import Comp30023.Interface.ServerLocks

/-!
# The server comes to rest

The agents of the server wait for one another: a session thread waits for the counters while it
holds the mutex of the log file, and everyone waits for the log file. Nobody waits the other way
round, so what the agents have to go between two reads from their sockets always gets done, in
whatever order they take turns.
-/

set_option autoImplicit false

namespace Comp30023.Analysis

open Comp30023.Library Comp30023.Model Comp30023.Interface

/-- So many events, of any agents, one after the other. -/
inductive EventRun : ServerState → ℕ → ServerState → Prop
  | refl (σ : ServerState) : EventRun σ 0 σ
  | tail {σ τ υ : ServerState} {n : ℕ} {a : Option ℕ} {lines : List LogEntry}
      (h : EventRun σ n τ) (hstep : EventStep τ a lines υ) : EventRun σ (n + 1) υ

/-- No agent can perform an event. -/
def Resting (σ : ServerState) : Prop := ∀ a lines τ, ¬ EventStep σ a lines τ

/-- No agent has events to go, and no mutex is locked: every session thread waits for its client or
is gone, and `main` is gone or somewhere between two clients, with nothing that it could wait for
but the next one. -/
structure Settled (σ : ServerState) : Prop where
  main : pendingMain σ.main = []
  threads : ∀ thread ∈ σ.threads, thread.session.conn.trace.length ≤ thread.performed
  held : σ.shared.held = []

/-- INTERNAL: a run of events can be appended to a run of the server. -/
theorem EventRun.serverLog {argument : Option (List UInt8)} {log : List (Option ℕ × LogEntry)}
    {σ τ : ServerState} {n : ℕ} (hrun : EventRun σ n τ) (h : ServerLog argument log σ) :
    ∃ log', ServerLog argument log' τ := by
  induction hrun with
  | refl => exact ⟨log, h⟩
  | tail _ hstep ih =>
    obtain ⟨log', hlog'⟩ := ih
    exact ⟨_, hlog'.event hstep⟩

/-- INTERNAL: every event is one less to go. -/
theorem EventRun.lowers {σ τ : ServerState} {n : ℕ} (h : EventRun σ n τ) :
    toGo σ = toGo τ + n := by
  induction h with
  | refl => rfl
  | tail _ hstep ih =>
    have hone := hstep.lowers
    omega

/-- INTERNAL: an agent that has something to go is one of those that are counted. -/
theorem remaining_eq_nil {σ : ServerState} (h : toGo σ = 0) (a : Option ℕ) :
    remaining σ a = [] := by
  obtain ⟨hmain, hthreads⟩ := Nat.add_eq_zero_iff.mp h
  cases a with
  | none => exact List.length_eq_zero_iff.mp hmain
  | some i =>
    cases hthread : σ.threads[i]? with
    | none => simp [remaining, hthread]
    | some thread =>
      have hle : thread.session.conn.trace.length - thread.performed ≤ 0 := by
        rw [← hthreads]
        exact List.single_le_sum (fun _ _ => Nat.zero_le _) _
          (List.mem_map_of_mem (List.mem_of_getElem? hthread))
      rw [remaining_thread hthread, List.drop_eq_nil_of_le (by omega)]
      rfl

/-- INTERNAL: agents that have nothing to go are settled. -/
theorem settled_of_toGo {sec : Option ℕ → Section} {σ : ServerState}
    {log : List (Option ℕ × LogEntry)} (hlaws : LockLaws sec σ log) (h : toGo σ = 0) :
    Settled σ := by
  refine ⟨remaining_eq_nil h none, fun thread hmem => ?_, ?_⟩
  · obtain ⟨i, hthread⟩ := List.mem_iff_getElem?.mp hmem
    have hnil := remaining_eq_nil h (some i)
    rw [remaining_thread hthread, List.map_eq_nil_iff, List.drop_eq_nil_iff] at hnil
    exact hnil
  · rw [List.eq_nil_iff_forall_not_mem]
    intro m hm
    obtain ⟨a, ha⟩ := (hlaws.shared.owned.mem_iff m).mp hm
    exact hlaws.agents.remaining_ne_nil ha (remaining_eq_nil h a)

/-- INTERNAL: while there is something to go, some agent need not wait. -/
theorem exists_event_of_toGo {sec : Option ℕ → Section} {σ : ServerState}
    {log : List (Option ℕ × LogEntry)} (hlaws : LockLaws sec σ log) (h : toGo σ ≠ 0) :
    ¬ Resting σ := by
  have hbusy : ∃ a, remaining σ a ≠ [] := by
    by_contra hnone
    push Not at hnone
    apply h
    unfold toGo
    rw [show pendingMain σ.main = [] from hnone none, List.length_nil, Nat.zero_add]
    refine total_eq_zero fun thread hmem => ?_
    obtain ⟨i, hthread⟩ := List.mem_iff_getElem?.mp hmem
    have hnil := hnone (some i)
    rw [remaining_thread hthread, List.map_eq_nil_iff, List.drop_eq_nil_iff] at hnil
    omega
  obtain ⟨a, ha⟩ := hbusy
  obtain ⟨b, lines, τ, -, hstep⟩ := hlaws.agents.exists_event hlaws.shared.owned
    (fun _ hgo => hgo) (fun _ _ _ _ _ hm => hlaws.agents.remaining_ne_nil hm) ha
  exact fun hrest => hrest b lines τ hstep

/-- **The server comes to rest.** From every state the server can come to, its agents never keep
each other waiting: however they perform their events, after as many as they have to go between
them, and not before, none can perform another one; then none has events to go, and no mutex is
locked. The turns in which `main` takes a client, tests for room and creates a thread are no events:
no mutex is in their way, and a new thread brings events of its own.
SOURCE: server.c:161-257, 411-474, 483-623 -/
theorem server_comes_to_rest (argument : Option (List UInt8)) {σ τ : ServerState} {n : ℕ}
    (h : Relation.ReflTransGen ServerStep (ServerState.initial argument) σ)
    (hrun : EventRun σ n τ) :
    n ≤ toGo σ ∧ (Resting τ ↔ n = toGo σ) ∧ (Resting τ → Settled τ) := by
  obtain ⟨log, hlog⟩ := exists_serverLog.mpr h
  obtain ⟨log', hlog'⟩ := hrun.serverLog hlog
  obtain ⟨sec, hlaws⟩ := lockLaws_of_log hlog'
  have hcount := hrun.lowers
  have hiff : Resting τ ↔ toGo τ = 0 := by
    constructor
    · intro hrest
      by_contra hne
      exact exists_event_of_toGo hlaws hne hrest
    · intro hzero a lines υ hstep
      have hone := hstep.lowers
      omega
  refine ⟨by omega, hiff.trans (by omega), fun hrest => settled_of_toGo hlaws (hiff.mp hrest)⟩

/-- A client that hangs up at once. -/
def hastyClient : SessionInput :=
  { secretCode := [], stackBuffer := List.replicate gpSize 0, rand := fun _ => 0, reads := []
    writes := [] }

/-- Its session thread. -/
def hastyThread : SessionThread :=
  SessionThread.start
    { hastyClient with secretCode := strncpy (mainSecretCode none) (secretCodeLen + 1) }

/-- The server when it has created threads for such clients. -/
def hastyServer (n : ℕ) : ServerState :=
  { ServerState.initial none with threads := List.replicate n hastyThread }

/-- INTERNAL: the server takes one more of them.
SOURCE: server.c:411-474 -/
theorem hastyServer_run (n : ℕ) :
    Relation.ReflTransGen ServerStep (ServerState.initial none) (hastyServer n) := by
  induction n with
  | zero => exact .refl
  | succ n ih =>
    have haccept := ih.tail (.accept (σ := hastyServer n) rfl hastyClient)
    have hroom := haccept.tail (.room rfl (show (0 : ℤ) < 40 by decide))
    have hcreate : Relation.ReflTransGen ServerStep (ServerState.initial none)
        { hastyServer n with threads := (hastyServer n).threads ++ [hastyThread] } :=
      hroom.tail (.create rfl)
    have hthreads : (hastyServer n).threads ++ [hastyThread] = (hastyServer (n + 1)).threads :=
      List.replicate_succ'.symm
    rw [hthreads] at hcreate
    exact hcreate

/-- Two such threads, of which the first one has locked the mutex of the log file. -/
def waitingServer : ServerState :=
  { hastyServer 2 with
    shared := ⟨0, 0, 0, [.logFile]⟩
    threads := [hastyThread.next, hastyThread] }

/-- INTERNAL: the second thread waits for the first one, but the server is not at rest before the
threads have performed the twenty-seven events that they have to go. -/
theorem server_comes_to_rest_waiting :
    nextMutex (remaining waitingServer (some 1)) = some .logFile ∧
      waitingServer.shared.held = [.logFile] ∧ toGo waitingServer = 27 ∧ ¬ Resting waitingServer := by
  have hlock : EventStep (hastyServer 2) (some 0) [] waitingServer :=
    .thread rfl (show _ = some (.lock .logFile) by decide +kernel) rfl
  have hrun := (EventRun.refl (hastyServer 2)).tail hlock
  obtain ⟨-, hiff, -⟩ := server_comes_to_rest none (hastyServer_run 2) hrun
  have htoGo : toGo (hastyServer 2) = 28 := by decide +kernel
  have hone := hlock.lowers
  refine ⟨by decide +kernel, rfl, by omega, fun hrest => ?_⟩
  rw [hiff, htoGo] at hrest
  cases hrest

end Comp30023.Analysis
