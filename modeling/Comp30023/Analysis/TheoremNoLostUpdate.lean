import Comp30023.Interface.CounterAccess

/-!
# No update is lost

What a thread has loaded from a counter stays the value of the counter until the thread has stored
the new one, since it holds the mutex of the counter all the time. So the turns in which a counter
is loaded can be forgotten, and those in which it is stored are the events of the server.
-/

set_option autoImplicit false

namespace Comp30023.Analysis

open Comp30023.Library Comp30023.Model Comp30023.Interface

/-- What has been loaded is up to date. -/
def UpToDate (φ : FineState) : Prop :=
  ∀ a value, φ.loaded a = some value →
    ∃ counter change, nextCount (remaining φ.server a) = some (counter, change) ∧
      value = valueOf φ.server.shared counter

/-- INTERNAL: one turn keeps everything up to date, and is at most one turn of the server.
SOURCE: server.c:161-191 -/
theorem upToDate_step {argument : Option (List UInt8)} {φ ψ : FineState}
    (hreach : Relation.ReflTransGen ServerStep (ServerState.initial argument) φ.server)
    (h : UpToDate φ) (hstep : FineStep φ ψ) :
    Relation.ReflTransGen ServerStep (ServerState.initial argument) ψ.server ∧ UpToDate ψ := by
  obtain ⟨log, hlog⟩ := exists_serverLog.mpr hreach
  obtain ⟨sec, hlaws⟩ := lockLaws_of_log hlog
  cases hstep with
  | other hstep hother =>
    refine ⟨hreach.tail hstep, fun a value hloaded => ?_⟩
    obtain ⟨counter, change, hcount, rfl⟩ := h a value hloaded
    have hgo : remaining φ.server a ≠ [] := by
      intro hnil
      rw [hnil] at hcount
      cases hcount
    refine ⟨counter, change, ?_, ?_⟩
    · rw [remaining_other hstep hother hgo, hcount]
    · rw [(hlaws.agents.other hstep hother).2]
  | @event τ b lines hstep hnone =>
    refine ⟨hreach.tail hstep.serverStep, fun a value hloaded => ?_⟩
    obtain ⟨counter, change, hcount, rfl⟩ := h a value hloaded
    obtain ⟨event, hself, hperform, -, hothers⟩ := hstep.takesOne
    have hne : a ≠ b := by
      rintro rfl
      rw [hnone] at hcount
      cases hcount
    refine ⟨counter, change, ?_, ?_⟩
    · rw [hothers a hne, hcount]
    · rw [hself] at hnone
      exact (valueOf_performMain hnone hperform counter).symm
  | @load b counter change hcount hfresh =>
    refine ⟨hreach, fun a value hloaded => ?_⟩
    dsimp only at hloaded
    by_cases ha : a = b
    · subst ha
      rw [Function.update_self] at hloaded
      exact ⟨counter, change, hcount, (Option.some.inj hloaded).symm⟩
    · rw [Function.update_of_ne ha] at hloaded
      exact h a value hloaded
  | @store τ b lines counter change value hstep hcount hloaded =>
    obtain ⟨counter', change', hcount', rfl⟩ := h b value hloaded
    obtain ⟨rfl, rfl⟩ := Prod.mk.inj (Option.some.inj (hcount'.symm.trans hcount))
    obtain ⟨event, -, -, -, hothers⟩ := hstep.takesOne
    -- the value that is stored is the one that a single turn would have stored
    have hshared := hstep.storeValue hcount
    rw [hshared]
    refine ⟨hreach.tail hstep.serverStep, fun a value hother => ?_⟩
    dsimp only at hother
    have hne : a ≠ b := by
      rintro rfl
      rw [Function.update_self] at hother
      cases hother
    rw [Function.update_of_ne hne] at hother
    obtain ⟨counter, change, hnext, rfl⟩ := h a value hother
    -- two agents that are about to change the same counter would both hold its mutex
    have hcounters : counter ≠ counter' := by
      rintro rfl
      exact hne (hlaws.shared.owned.exclusive a b (guardOf counter)
        (hlaws.agents.guardOf_mem hnext) (hlaws.agents.guardOf_mem hcount))
    refine ⟨counter, change, ?_, ?_⟩
    · show nextCount (remaining τ a) = _
      rw [hothers a hne, hnext]
    · show _ = valueOf τ.shared counter
      rw [← hshared, valueOf_storeValue _ _ hcounters]

/-- INTERNAL: a turn of the server is one or two of its fine turns. -/
theorem fine_of_step {σ τ : ServerState} (h : ServerStep σ τ) :
    Relation.ReflTransGen FineStep ⟨σ, fun _ => none⟩ ⟨τ, fun _ => none⟩ := by
  by_cases hevent : ∃ a lines, EventStep σ a lines τ
  · obtain ⟨a, lines, hstep⟩ := hevent
    cases hcount : nextCount (remaining σ a) with
    | none => exact .single (.event hstep hcount)
    | some next =>
      obtain ⟨counter, change⟩ := next
      have hload := Relation.ReflTransGen.single (FineStep.load (φ := ⟨σ, fun _ => none⟩) hcount rfl)
      have hstore := hload.tail (.store hstep hcount (Function.update_self ..))
      rw [hstep.storeValue hcount, Function.update_idem, Function.update_eq_self] at hstore
      exact hstore
  · push Not at hevent
    exact .single (.other h hevent)

/-- **No update is lost.** A server whose threads load a counter and store its new value in
separate turns, between which others take theirs, comes to the same states as one in which
counting is a single turn.
SOURCE: server.c:79-81, 161-191, 411-474, 483-623 -/
theorem no_update_is_lost (argument : Option (List UInt8)) (σ : ServerState) :
    (∃ loaded, Relation.ReflTransGen FineStep (FineState.initial argument) ⟨σ, loaded⟩) ↔
      Relation.ReflTransGen ServerStep (ServerState.initial argument) σ := by
  constructor
  · rintro ⟨loaded, h⟩
    have hall : ∀ φ, Relation.ReflTransGen FineStep (FineState.initial argument) φ →
        Relation.ReflTransGen ServerStep (ServerState.initial argument) φ.server ∧ UpToDate φ := by
      intro φ hφ
      induction hφ with
      | refl => exact ⟨.refl, fun a value hloaded => by cases hloaded⟩
      | tail _ hstep ih => exact upToDate_step ih.1 ih.2 hstep
    exact (hall _ h).1
  · intro h
    refine ⟨fun _ => none, ?_⟩
    induction h with
    | refl => exact .refl
    | tail _ hstep ih => exact ih.trans (fine_of_step hstep)

end Comp30023.Analysis
