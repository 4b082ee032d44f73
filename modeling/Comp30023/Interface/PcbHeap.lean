import Comp30023.Library.Levels
import Comp30023.Library.Links
import Comp30023.Model.ProcessScheduler
import Mathlib.Data.List.Forall2
import Mathlib.Data.List.Nodup
import Mathlib.Data.List.Perm.Subperm

/-!
# Queues in the heap of process control blocks

A process control block is split into its link (`nextOf`) and everything else
(`coreOf`). The queue operations only touch links, the operations on a running process
only its core and its own link. `QueuesIn pcbs heads lists` says that the heads lead
through the heap to exactly these lists of blocks; popping takes the head of one list,
appending adds a block that is in none of them to the end of one list. That the appended
block has no `next` link is a premise: the source does not clear it when the list is
empty.
-/

set_option autoImplicit false

namespace Comp30023.Interface

open Comp30023.Library Comp30023.Model

/-- The `next` link of a block. -/
def nextOf (pcbs : List ProcessControlBlock) (pcb : ℕ) : Option ℕ :=
  pcbs[pcb]?.bind ProcessControlBlock.next

/-- A block without its `next` link. -/
def coreOf (pcbs : List ProcessControlBlock) (pcb : ℕ) : Option ProcessControlBlock :=
  pcbs[pcb]?.map fun b => { b with next := none }

/-! ## Reading and writing blocks -/

theorem getPcb_ok {pcbs : List ProcessControlBlock} {pcb : ℕ} {b : ProcessControlBlock}
    (h : pcbs[pcb]? = some b) : getPcb pcbs pcb = .ok b := by
  simp [getPcb, h]

theorem modifyPcb_ok {pcbs : List ProcessControlBlock} {pcb : ℕ} {b : ProcessControlBlock}
    (h : pcbs[pcb]? = some b) (f : ProcessControlBlock → ProcessControlBlock) :
    modifyPcb pcbs pcb f = .ok (pcbs.set pcb (f b)) := by
  simp [modifyPcb, h]

/-- INTERNAL: a block is its core with its link. -/
theorem getElem?_of_coreOf {pcbs : List ProcessControlBlock} {pcb : ℕ} {c : ProcessControlBlock}
    (h : coreOf pcbs pcb = some c) : pcbs[pcb]? = some { c with next := nextOf pcbs pcb } := by
  unfold coreOf at h
  cases hb : pcbs[pcb]? with
  | none => simp [hb] at h
  | some b =>
    simp only [hb, Option.map_some, Option.some.injEq] at h
    subst h
    simp [nextOf, hb]

theorem nextOf_set {pcbs : List ProcessControlBlock} {pcb : ℕ} (hlt : pcb < pcbs.length)
    (b : ProcessControlBlock) (i : ℕ) :
    nextOf (pcbs.set pcb b) i = if i = pcb then b.next else nextOf pcbs i := by
  unfold nextOf
  rw [List.getElem?_set]
  by_cases h : pcb = i
  · subst h
    simp [hlt]
  · simp [h, Ne.symm h]

theorem coreOf_set {pcbs : List ProcessControlBlock} {pcb : ℕ} (hlt : pcb < pcbs.length)
    (b : ProcessControlBlock) (i : ℕ) :
    coreOf (pcbs.set pcb b) i =
      if i = pcb then some { b with next := none } else coreOf pcbs i := by
  unfold coreOf
  rw [List.getElem?_set]
  by_cases h : pcb = i
  · subst h
    simp [hlt]
  · simp [h, Ne.symm h]

theorem nextOf_append_new (pcbs : List ProcessControlBlock) (b : ProcessControlBlock) (i : ℕ) :
    nextOf (pcbs ++ [b]) i = if i = pcbs.length then b.next else nextOf pcbs i := by
  unfold nextOf
  rcases lt_trichotomy i pcbs.length with h | h | h
  · rw [List.getElem?_append_left h, if_neg (by omega)]
  · subst h
    simp
  · rw [List.getElem?_eq_none (by simp; omega), List.getElem?_eq_none (by omega),
      if_neg (by omega)]

theorem coreOf_append_new (pcbs : List ProcessControlBlock) (b : ProcessControlBlock) (i : ℕ) :
    coreOf (pcbs ++ [b]) i =
      if i = pcbs.length then some { b with next := none } else coreOf pcbs i := by
  unfold coreOf
  rcases lt_trichotomy i pcbs.length with h | h | h
  · rw [List.getElem?_append_left h, if_neg (by omega)]
  · subst h
    simp
  · rw [List.getElem?_eq_none (by simp; omega), List.getElem?_eq_none (by omega),
      if_neg (by omega)]

/-! ## One queue -/

/-- INTERNAL: a pop takes the first block and leaves the rest of the chain.
SOURCE: process-scheduler.c:140-148 -/
theorem popFront_cons {pcbs : List ProcessControlBlock} {head : Option ℕ} {x : ℕ} {xs : List ℕ}
    (h : Linked (nextOf pcbs) head (x :: xs)) (hlt : x < pcbs.length) :
    popFrontPcbFromPcbsQueue pcbs head = .ok (some x, nextOf pcbs x) := by
  have hb : pcbs[x]? = some pcbs[x] := List.getElem?_eq_getElem hlt
  rw [h.1]
  simp [popFrontPcbFromPcbsQueue, getPcb, nextOf, hb]
  rfl

/-- INTERNAL: a pop of an empty queue changes nothing.
SOURCE: process-scheduler.c:140-148 -/
theorem popFront_nil {pcbs : List ProcessControlBlock} {head : Option ℕ}
    (h : Linked (nextOf pcbs) head []) :
    popFrontPcbFromPcbsQueue pcbs head = .ok (none, none) ∧ head = none := by
  rw [linked_nil] at h
  subst h
  exact ⟨rfl, rfl⟩

/-- INTERNAL: the walk along a chain ends at its last block.
SOURCE: process-scheduler.c:163-169 -/
theorem lastPcb_linked {pcbs : List ProcessControlBlock} {x last : ℕ} {xs : List ℕ} (fuel : ℕ)
    (h : Linked (nextOf pcbs) (some x) (xs ++ [last])) (hlt : ∀ y ∈ xs ++ [last], y < pcbs.length)
    (hfuel : xs.length < fuel) : lastPcb pcbs fuel x = .ok last := by
  induction xs generalizing x fuel with
  | nil =>
    obtain ⟨hx, hend⟩ := h
    obtain rfl : x = last := by simpa using hx
    cases fuel with
    | zero => omega
    | succ fuel =>
      obtain ⟨b, hb⟩ : ∃ b, pcbs[x]? = some b :=
        ⟨_, List.getElem?_eq_getElem (hlt x (by simp))⟩
      have hnext : b.next = none := by simpa [nextOf, hb] using hend
      unfold lastPcb
      rw [getPcb_ok hb]
      simp [bind, Except.bind, hnext]
  | cons y xs ih =>
    rw [List.cons_append, linked_cons] at h
    obtain ⟨hx, hrest⟩ := h
    obtain rfl : x = y := by simpa using hx
    cases fuel with
    | zero => omega
    | succ fuel =>
      obtain ⟨b, hb⟩ : ∃ b, pcbs[x]? = some b :=
        ⟨_, List.getElem?_eq_getElem (hlt x (by simp))⟩
      have hlink : nextOf pcbs x = b.next := by simp [nextOf, hb]
      rw [hlink] at hrest
      obtain ⟨z, hz⟩ : ∃ z, b.next = some z := by
        cases hn : b.next with
        | some z => exact ⟨z, rfl⟩
        | none =>
          rw [hn, linked_none] at hrest
          simp at hrest
      unfold lastPcb
      rw [getPcb_ok hb]
      simp only [bind, Except.bind, hz]
      rw [hz] at hrest
      refine ih fuel hrest (fun w hw => hlt w ?_) (by simpa using hfuel)
      rw [List.cons_append]
      exact List.mem_cons_of_mem _ hw

/-- INTERNAL: a block gets a new link, and nothing else changes. -/
theorem modifyPcb_next {pcbs : List ProcessControlBlock} {pcb : ℕ} (hlt : pcb < pcbs.length)
    (link : Option ℕ) :
    ∃ pcbs', modifyPcb pcbs pcb (fun b => { b with next := link }) = .ok pcbs' ∧
      (∀ i, nextOf pcbs' i = if i = pcb then link else nextOf pcbs i) ∧
      (∀ i, coreOf pcbs' i = coreOf pcbs i) ∧ pcbs'.length = pcbs.length := by
  have hb : pcbs[pcb]? = some pcbs[pcb] := List.getElem?_eq_getElem hlt
  refine ⟨_, modifyPcb_ok hb _, fun i => nextOf_set hlt _ i, fun i => ?_, by simp⟩
  rw [coreOf_set hlt]
  by_cases hi : i = pcb
  · rw [if_pos hi, hi]
    simp [coreOf, hb]
  · rw [if_neg hi]

/-- Hanging a block that is not on the list behind one that is: it becomes the next of the
chain, and the rest of the heap keeps its links and every core.
SOURCE: process-scheduler.c:117-118, 132-133, 171-172 -/
theorem insertBehind_linked {pcbs : List ProcessControlBlock} {head : Option ℕ} {xs ys : List ℕ}
    {prev pcb : ℕ} (h : Linked (nextOf pcbs) head (xs ++ prev :: ys))
    (hprev : prev < pcbs.length) (hpcb : pcb < pcbs.length) (hnot : pcb ∉ xs ++ prev :: ys) :
    ∃ pcbs', insertBehind (some prev) pcb (nextOf pcbs prev) pcbs = .ok pcbs' ∧
      Linked (nextOf pcbs') head (xs ++ prev :: pcb :: ys) ∧
      (∀ i, i ∉ xs ++ prev :: ys → i ≠ pcb → nextOf pcbs' i = nextOf pcbs i) ∧
      (∀ i, coreOf pcbs' i = coreOf pcbs i) ∧ pcbs'.length = pcbs.length := by
  obtain ⟨pcbs₁, hmod₁, hnext₁, hcore₁, hlen₁⟩ := modifyPcb_next hprev (some pcb)
  obtain ⟨pcbs₂, hmod₂, hnext₂, hcore₂, hlen₂⟩ :=
    modifyPcb_next (hlen₁.symm ▸ hpcb) (nextOf pcbs prev)
  have hne : prev ≠ pcb := by
    rintro rfl
    exact hnot (by simp)
  refine ⟨pcbs₂, ?_, ?_, ?_, ?_, ?_⟩
  · simp only [insertBehind, hmod₁, bind, Except.bind, hmod₂]
  · apply h.insert
    · intro x hx
      have hxp : x ≠ pcb := by
        rintro rfl
        exact hnot (by grind)
      have hxprev : x ≠ prev := by
        rintro rfl
        have hnodup := h.nodup
        rw [List.nodup_middle, List.nodup_cons] at hnodup
        exact hnodup.1 hx
      rw [hnext₂, if_neg hxp, hnext₁, if_neg hxprev]
    · rw [hnext₂, if_neg hne, hnext₁, if_pos rfl]
    · rw [hnext₂, if_pos rfl]
  · intro i hi hip
    have hiprev : i ≠ prev := by
      rintro rfl
      exact hi (by simp)
    rw [hnext₂, if_neg hip, hnext₁, if_neg hiprev]
  · intro i
    rw [hcore₂, hcore₁]
  · rw [hlen₂, hlen₁]

/-- Appending a block that is not on the list, and has no `next` link if the list is empty:
it becomes the last of the chain, and the rest of the heap keeps its links and every core.
SOURCE: process-scheduler.c:150-175 -/
theorem append_linked {pcbs : List ProcessControlBlock} {head : Option ℕ} {xs : List ℕ} {pcb : ℕ}
    (h : Linked (nextOf pcbs) head xs) (hlt : ∀ y ∈ xs, y < pcbs.length) (hpcb : pcb < pcbs.length)
    (hnot : pcb ∉ xs) (hnext : xs = [] → nextOf pcbs pcb = none) :
    ∃ head' pcbs', appendPcbToPcbsList pcb head pcbs = .ok (head', pcbs') ∧
      Linked (nextOf pcbs') head' (xs ++ [pcb]) ∧
      (∀ i, i ∉ xs → i ≠ pcb → nextOf pcbs' i = nextOf pcbs i) ∧
      (∀ i, coreOf pcbs' i = coreOf pcbs i) ∧ pcbs'.length = pcbs.length := by
  rcases List.eq_nil_or_concat xs with rfl | ⟨ys, last, rfl⟩
  · rw [linked_nil] at h
    subst h
    exact ⟨some pcb, pcbs, rfl, ⟨rfl, hnext rfl⟩, fun i _ _ => rfl, fun i => rfl, rfl⟩
  · rw [List.concat_eq_append] at *
    obtain ⟨first, hfirst⟩ : ∃ first, head = some first := by
      cases ys <;> exact ⟨_, h.1⟩
    subst hfirst
    -- the walk needs one step for each block of the chain
    have hlen := h.length_le hlt
    rw [List.length_append, List.length_singleton] at hlen
    have hwalk := lastPcb_linked pcbs.length h hlt (by omega)
    obtain ⟨pcbs', hins, hlinked, hframe, hcore, hlength⟩ :=
      insertBehind_linked h (hlt last (by simp)) hpcb hnot
    have hend : nextOf pcbs last = none := h.suffix.2
    rw [hend] at hins
    refine ⟨some first, pcbs', ?_, by simpa using hlinked, hframe, hcore, hlength⟩
    simp only [insertBehind, bind, Except.bind] at hins
    simp only [appendPcbToPcbsList, hwalk, bind, Except.bind]
    cases hmod : modifyPcb pcbs last fun b => { b with next := some pcb } with
    | error e =>
      rw [hmod] at hins
      cases hins
    | ok pcbs₁ =>
      rw [hmod] at hins
      simp only at hins ⊢
      rw [hins]

/-! ## Several queues -/

/-- The heads lead through the heap to these lists of blocks. -/
def QueuesIn (pcbs : List ProcessControlBlock) (heads : List (Option ℕ)) (lists : List (List ℕ)) :
    Prop :=
  List.Forall₂ (Linked (nextOf pcbs)) heads lists

/-- INTERNAL: queues only depend on the links of their own blocks. -/
theorem QueuesIn.congr {pcbs pcbs' : List ProcessControlBlock} {heads : List (Option ℕ)}
    {lists : List (List ℕ)} (h : QueuesIn pcbs heads lists)
    (heq : ∀ x ∈ lists.flatten, nextOf pcbs' x = nextOf pcbs x) : QueuesIn pcbs' heads lists := by
  unfold QueuesIn at h ⊢
  induction h with
  | nil => exact List.Forall₂.nil
  | cons hl _ ih =>
    refine List.Forall₂.cons (hl.congr fun x hx => heq x (by simp [hx])) (ih fun x hx => ?_)
    exact heq x (by rw [List.flatten_cons]; exact List.mem_append_right _ hx)

/-- INTERNAL: replacing one queue and its list, with links that agree with the old ones
on the blocks of all other queues. -/
theorem QueuesIn.set {pcbs pcbs' : List ProcessControlBlock} {heads : List (Option ℕ)}
    {lists : List (List ℕ)} (h : QueuesIn pcbs heads lists) {k : ℕ} {xs : List ℕ}
    (hk : lists[k]? = some xs) (hnodup : lists.flatten.Nodup) {head' : Option ℕ}
    (f : List ℕ → List ℕ) (hnew : Linked (nextOf pcbs') head' (f xs))
    (heq : ∀ i, i ∈ lists.flatten → i ∉ xs → nextOf pcbs' i = nextOf pcbs i) :
    QueuesIn pcbs' (heads.set k head') (lists.modify k f) := by
  unfold QueuesIn at h ⊢
  induction h generalizing k with
  | nil => simp at hk
  | @cons head l heads lists hl hrest ih =>
    rw [List.flatten_cons, List.nodup_append] at hnodup
    obtain ⟨-, hnodup', hdisj⟩ := hnodup
    cases k with
    | zero =>
      simp only [List.getElem?_cons_zero, Option.some.injEq] at hk
      subst hk
      refine List.Forall₂.cons hnew (QueuesIn.congr hrest fun x hx => ?_)
      exact heq x (by simp [List.flatten_cons, hx]) fun hmem => hdisj x hmem x hx rfl
    | succ k =>
      simp only [List.getElem?_cons_succ] at hk
      have hsub : ∀ x ∈ xs, x ∈ lists.flatten := fun x hx =>
        List.mem_flatten.mpr ⟨xs, List.mem_of_getElem? hk, hx⟩
      refine List.Forall₂.cons (hl.congr fun x hx => ?_) (ih hk hnodup' fun i hi hni => ?_)
      · exact heq x (by simp [hx]) fun hmem => hdisj x hx x (hsub x hmem) rfl
      · exact heq i (by rw [List.flatten_cons]; exact List.mem_append_right _ hi) hni

/-- INTERNAL: every queue is a chain of its own. -/
theorem QueuesIn.linked {pcbs : List ProcessControlBlock} {heads : List (Option ℕ)}
    {lists : List (List ℕ)} (h : QueuesIn pcbs heads lists) {k : ℕ} {xs : List ℕ}
    (hk : lists[k]? = some xs) : ∃ head, heads[k]? = some head ∧ Linked (nextOf pcbs) head xs := by
  unfold QueuesIn at h
  induction h generalizing k with
  | nil => simp at hk
  | cons hl _ ih =>
    cases k with
    | zero =>
      simp only [List.getElem?_cons_zero, Option.some.injEq] at hk
      subst hk
      exact ⟨_, rfl, hl⟩
    | succ k => exact ih (by simpa using hk)

/-- Appending a block that is in none of the queues to one of them.
SOURCE: process-scheduler.c:150-175 -/
theorem QueuesIn.append {pcbs : List ProcessControlBlock} {heads : List (Option ℕ)}
    {lists : List (List ℕ)} (h : QueuesIn pcbs heads lists) (hnodup : lists.flatten.Nodup)
    (hlt : ∀ x ∈ lists.flatten, x < pcbs.length) {k : ℕ} {xs : List ℕ} (hk : lists[k]? = some xs)
    {pcb : ℕ} (hpcb : pcb < pcbs.length) (hnot : pcb ∉ lists.flatten)
    (hnext : nextOf pcbs pcb = none) :
    ∃ head head' pcbs', heads[k]? = some head ∧
      appendPcbToPcbsList pcb head pcbs = .ok (head', pcbs') ∧
      QueuesIn pcbs' (heads.set k head') (pushAt k pcb lists) ∧
      (∀ i, i ∉ lists.flatten → nextOf pcbs' i = nextOf pcbs i) ∧
      (∀ i, coreOf pcbs' i = coreOf pcbs i) ∧ pcbs'.length = pcbs.length := by
  obtain ⟨head, hhead, hl⟩ := h.linked hk
  have hsub : ∀ x ∈ xs, x ∈ lists.flatten := fun x hx =>
    List.mem_flatten.mpr ⟨xs, List.mem_of_getElem? hk, hx⟩
  obtain ⟨head', pcbs', happ, hl', hframe, hcore, hlen⟩ := append_linked hl
    (fun y hy => hlt y (hsub y hy)) hpcb (fun hmem => hnot (hsub _ hmem)) fun _ => hnext
  have hpcb' : nextOf pcbs' pcb = none := hl'.suffix.2
  refine ⟨head, head', pcbs', hhead, happ, h.set hk hnodup _ hl' fun i hi hni => ?_,
    fun i hi => ?_, hcore, hlen⟩
  · refine hframe i hni ?_
    rintro rfl
    exact hnot hi
  · by_cases hip : i = pcb
    · rw [hip, hpcb', hnext]
    · exact hframe i (fun hmem => hi (hsub i hmem)) hip

end Comp30023.Interface
