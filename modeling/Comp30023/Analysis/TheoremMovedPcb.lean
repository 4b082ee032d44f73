import Comp30023.Interface.PcbHeap
import Mathlib.Data.Prod.Lex

/-!
# Moving one process control block

A block is taken from the front of one queue and put into another, at its end or at its
sorted position. `pop_front_pcb_from_pcbs_queue` leaves the `next` link of the block as it
was, and every branch of the two insertions sets it except the one for the empty queue. So
exactly one block is moved, unless the queue it is put into is empty and the one it comes
from is not empty afterwards: then the whole rest of that queue comes along.
-/

set_option autoImplicit false

namespace Comp30023.Analysis

open Comp30023.Library Comp30023.Model Comp30023.Interface

/-! ## The sorted position -/

/-- What `add_pcb_to_pcbs_queue` sorts by: the priority, then the process id. -/
def keyOf (pcbs : List ProcessControlBlock) (pcb : ℕ) : ℕ ×ₗ ℤ :=
  match pcbs[pcb]? with
  | some b => toLex (b.priority, b.processId)
  | none => toLex (0, 0)

/-- The keys do not fall along the chain. -/
def SortedByKey (pcbs : List ProcessControlBlock) (chain : List ℕ) : Prop :=
  chain.Pairwise fun i j => keyOf pcbs i ≤ keyOf pcbs j

section Keys

variable {pcbs pcbs' : List ProcessControlBlock} {pcb : ℕ} {b : ProcessControlBlock}

/-- INTERNAL: the comparison of the source is the order of the keys.
SOURCE: process-scheduler.c:105-106 -/
theorem goesBefore_iff {curr : ℕ} {c : ProcessControlBlock} (hb : pcbs[pcb]? = some b)
    (hc : pcbs[curr]? = some c) : goesBefore b c = true ↔ keyOf pcbs pcb < keyOf pcbs curr := by
  simp only [goesBefore, keyOf, hb, hc, Prod.Lex.toLex_lt_toLex, decide_eq_true_eq]

/-- INTERNAL: the key of a block does not depend on its link. -/
theorem keyOf_congr (h : ∀ i, coreOf pcbs' i = coreOf pcbs i) (i : ℕ) :
    keyOf pcbs' i = keyOf pcbs i := by
  have hi := h i
  unfold coreOf at hi
  unfold keyOf
  cases hb : pcbs[i]? with
  | none =>
    rw [hb, Option.map_none, Option.map_eq_none_iff] at hi
    rw [hi]
  | some b =>
    rw [hb, Option.map_some, Option.map_eq_some_iff] at hi
    obtain ⟨b', hb', heq⟩ := hi
    rw [hb']
    simp only [ProcessControlBlock.mk.injEq] at heq
    simp only [heq]

/-- The walk stops between the blocks that do not come after the new one and the first that
does.
SOURCE: process-scheduler.c:93-126 -/
theorem sortedPosition_linked {curr : Option ℕ} {ys : List ℕ} {fuel : ℕ}
    (hb : pcbs[pcb]? = some b) (h : Linked (nextOf pcbs) curr ys)
    (hlt : ∀ y ∈ ys, y < pcbs.length) (hfuel : ys.length ≤ fuel) (prev : Option ℕ) :
    ∃ before after, ys = before ++ after ∧ (∀ y ∈ before, keyOf pcbs y ≤ keyOf pcbs pcb) ∧
      (∀ y ∈ after.head?, keyOf pcbs pcb < keyOf pcbs y) ∧
      sortedPosition b pcbs fuel prev curr = .ok (before.getLast?.or prev, after.head?) := by
  induction ys generalizing curr fuel prev with
  | nil =>
    rw [linked_nil] at h
    subst h
    refine ⟨[], [], rfl, by simp, by simp, ?_⟩
    cases fuel <;> rfl
  | cons y ys ih =>
    obtain ⟨rfl, hrest⟩ := h
    obtain ⟨fuel, rfl⟩ := Nat.exists_eq_add_one.mpr (Nat.lt_of_lt_of_le (Nat.succ_pos _) hfuel)
    obtain ⟨c, hc⟩ : ∃ c, pcbs[y]? = some c := ⟨_, List.getElem?_eq_getElem (hlt y (by simp))⟩
    have hkey := goesBefore_iff hb hc
    unfold sortedPosition
    simp only [getPcb_ok hc, bind, Except.bind]
    by_cases hgoes : goesBefore b c = true
    · refine ⟨[], y :: ys, rfl, by simp, ?_, by rw [if_pos hgoes]; rfl⟩
      intro z hz
      obtain rfl : y = z := by simpa using hz
      exact hkey.mp hgoes
    · rw [if_neg hgoes]
      have hnext : c.next = nextOf pcbs y := by simp [nextOf, hc]
      rw [hnext]
      obtain ⟨before, after, rfl, hbefore, hafter, hwalk⟩ :=
        ih hrest (fun z hz => hlt z (by simp [hz])) (by simpa using hfuel) (some y)
      refine ⟨y :: before, after, rfl, ?_, hafter, ?_⟩
      · intro z hz
        rcases List.mem_cons.mp hz with rfl | hz
        · exact not_lt.mp fun hless => hgoes (hkey.mpr hless)
        · exact hbefore z hz
      · rw [hwalk, List.getLast?_cons]
        cases before.getLast? <;> rfl

/-- Adding a block that is not on the queue, and has no `next` link if the queue is empty: it
stands behind every block that does not come after it, before the first that does, and the
rest of the heap keeps its links and every core.
SOURCE: process-scheduler.c:80-138 -/
theorem add_linked {head : Option ℕ} {xs : List ℕ} (h : Linked (nextOf pcbs) head xs)
    (hlt : ∀ y ∈ xs, y < pcbs.length) (hpcb : pcb < pcbs.length) (hnot : pcb ∉ xs)
    (hnext : xs = [] → nextOf pcbs pcb = none) :
    ∃ head' pcbs' before after, addPcbToPcbsQueue pcb head pcbs = .ok (head', pcbs') ∧
      xs = before ++ after ∧ (∀ y ∈ before, keyOf pcbs y ≤ keyOf pcbs pcb) ∧
      (∀ y ∈ after.head?, keyOf pcbs pcb < keyOf pcbs y) ∧
      Linked (nextOf pcbs') head' (before ++ pcb :: after) ∧
      (∀ i, i ∉ xs → i ≠ pcb → nextOf pcbs' i = nextOf pcbs i) ∧
      (∀ i, coreOf pcbs' i = coreOf pcbs i) ∧ pcbs'.length = pcbs.length := by
  cases xs with
  | nil =>
    rw [linked_nil] at h
    subst h
    exact ⟨some pcb, pcbs, [], [], rfl, rfl, by simp, by simp, ⟨rfl, hnext rfl⟩, fun i _ _ => rfl,
      fun i => rfl, rfl⟩
  | cons first rest =>
    obtain ⟨rfl, hrest⟩ := id h
    have hb : pcbs[pcb]? = some pcbs[pcb] := List.getElem?_eq_getElem hpcb
    obtain ⟨before, after, heq, hbefore, hafter, hwalk⟩ :=
      sortedPosition_linked hb h hlt (h.length_le hlt) none
    simp only [addPcbToPcbsQueue, getPcb_ok hb, bind, Except.bind, hwalk]
    rcases List.eq_nil_or_concat before with rfl | ⟨ys, prev, rfl⟩
    · -- the new head
      rw [List.nil_append] at heq
      subst heq
      obtain ⟨pcbs', hmod, hlinks, hcore, hlen⟩ := modifyPcb_next hpcb (some first)
      refine ⟨some pcb, pcbs', [], first :: rest, ?_, rfl, hbefore, hafter, ⟨rfl, ?_⟩, ?_, hcore,
        hlen⟩
      · rw [if_pos (by rfl), List.head?_cons, hmod]
      · rw [hlinks, if_pos rfl]
        apply h.congr
        intro x hx
        rw [hlinks, if_neg]
        rintro rfl
        exact hnot hx
      · intro i _ hip
        rw [hlinks, if_neg hip]
    · -- behind the last block that does not come after the new one
      rw [List.concat_eq_append] at *
      have hmiddle : first :: rest = ys ++ prev :: after := by
        rw [heq, List.append_assoc, List.singleton_append]
      rw [hmiddle] at h hnot hlt
      obtain ⟨pcbs', hins, hlinked, hframe, hcore, hlen⟩ :=
        insertBehind_linked h (hlt prev (by simp)) hpcb hnot
      have hlink : nextOf pcbs prev = after.head? := h.suffix.2.head?
      refine ⟨some first, pcbs', ys ++ [prev], after, ?_, heq, hbefore, hafter, ?_, ?_, hcore, hlen⟩
      · have hne : after.head? ≠ some first := by
          intro hfirst
          have hmem : first ∈ after := List.mem_of_head? hfirst
          have hnodup := h.nodup
          rw [← hmiddle, List.nodup_cons] at hnodup
          apply hnodup.1
          cases ys with
          | nil =>
            rw [List.nil_append, List.cons.injEq] at hmiddle
            rw [hmiddle.2]
            exact hmem
          | cons y ys =>
            rw [List.cons_append, List.cons.injEq] at hmiddle
            rw [hmiddle.2]
            simp [hmem]
        rw [if_neg hne, List.getLast?_concat, Option.some_or, ← hlink, hins]
      · simpa using hlinked
      · rw [hmiddle]
        exact hframe

/-- INTERNAL: in a sorted chain, what the first block comes after all the following do. -/
theorem lt_of_lt_head {before after : List ℕ} (hsorted : SortedByKey pcbs (before ++ after))
    (hfirst : ∀ x ∈ after.head?, keyOf pcbs pcb < keyOf pcbs x) :
    ∀ x ∈ after, keyOf pcbs pcb < keyOf pcbs x := by
  intro x hx
  have hpw := (List.pairwise_append.mp hsorted).2.1
  cases after with
  | nil => cases hx
  | cons y after =>
    have hy := hfirst y rfl
    rcases List.mem_cons.mp hx with rfl | hx
    · exact hy
    · exact lt_of_lt_of_le hy ((List.pairwise_cons.mp hpw).1 x hx)

/-- INTERNAL: a chain with a block at its sorted position is sorted. -/
theorem sortedByKey_insert {before after : List ℕ} (hsorted : SortedByKey pcbs (before ++ after))
    (hbefore : ∀ x ∈ before, keyOf pcbs x ≤ keyOf pcbs pcb)
    (hafter : ∀ x ∈ after, keyOf pcbs pcb < keyOf pcbs x) :
    SortedByKey pcbs (before ++ pcb :: after) := by
  obtain ⟨h₁, h₂, h₁₂⟩ := List.pairwise_append.mp hsorted
  refine List.pairwise_append.mpr ⟨h₁, List.pairwise_cons.mpr ⟨?_, h₂⟩, ?_⟩
  · intro x hx
    exact le_of_lt (hafter x hx)
  · intro x hx y hy
    rcases List.mem_cons.mp hy with rfl | hy
    · exact hbefore x hx
    · exact h₁₂ x hx y hy

end Keys

/-! ## From one queue to another -/

/-- Two queues in one heap that have no block in common. -/
structure DisjointQueues (pcbs : List ProcessControlBlock) (headA headB : Option ℕ)
    (chainA chainB : List ℕ) : Prop where
  linkedA : Linked (nextOf pcbs) headA chainA
  linkedB : Linked (nextOf pcbs) headB chainB
  valid : ∀ x ∈ chainA ++ chainB, x < pcbs.length
  disjoint : chainA.Disjoint chainB

/-- INTERNAL: under the condition, a block that is put into an empty queue has no link.
SOURCE: process-scheduler.c:140-148 -/
theorem DisjointQueues.next_of_condition {pcbs : List ProcessControlBlock} {headA headB : Option ℕ}
    {pcb : ℕ} {restA chainB : List ℕ} (h : DisjointQueues pcbs headA headB (pcb :: restA) chainB)
    (hcond : chainB ≠ [] ∨ restA = []) (hempty : chainB = []) : nextOf pcbs pcb = none := by
  rcases hcond with hne | rfl
  · exact absurd hempty hne
  · exact h.linkedA.2

/-- Popping a block off queue A and putting it into queue B with `insert` leads to the heap
`pcbs'` with these two chains in it, and changes nothing of any block but its link. -/
def Moves (insert : ℕ → Option ℕ → List ProcessControlBlock →
      Except Fault (Option ℕ × List ProcessControlBlock))
    (pcbs : List ProcessControlBlock) (headA headB : Option ℕ)
    (pcbs' : List ProcessControlBlock) (chainA chainB : List ℕ) : Prop :=
  ∃ pcb headA' headB', popFrontPcbFromPcbsQueue pcbs headA = .ok (some pcb, headA') ∧
    insert pcb headB pcbs = .ok (headB', pcbs') ∧
    DisjointQueues pcbs' headA' headB' chainA chainB ∧ ∀ i, coreOf pcbs' i = coreOf pcbs i

/-- The popped block is put behind the old chain of B, alone. -/
def AppendsOne (pcbs : List ProcessControlBlock) (headA headB : Option ℕ) (pcb : ℕ)
    (restA chainB : List ℕ) : Prop :=
  ∃ pcbs', Moves appendPcbToPcbsList pcbs headA headB pcbs' restA (chainB ++ [pcb])

/-- The popped block is put into the old chain of B, behind every block with a key that is not
larger and before every block with a larger one, alone, and the chain is sorted. -/
def AddsOne (pcbs : List ProcessControlBlock) (headA headB : Option ℕ) (pcb : ℕ)
    (restA chainB : List ℕ) : Prop :=
  ∃ pcbs' before after, chainB = before ++ after ∧
    (∀ x ∈ before, keyOf pcbs x ≤ keyOf pcbs pcb) ∧
    (∀ x ∈ after, keyOf pcbs pcb < keyOf pcbs x) ∧
    Moves addPcbToPcbsQueue pcbs headA headB pcbs' restA (before ++ pcb :: after) ∧
    SortedByKey pcbs' (before ++ pcb :: after)

section Queues

variable {pcbs : List ProcessControlBlock} {headA headB : Option ℕ} {pcb : ℕ}
  {restA chainB : List ℕ}

/-- INTERNAL: what is in the way when B is empty and A is not empty afterwards: the block still
points to the rest of A.
SOURCE: process-scheduler.c:84-88, 142-147, 154-158 -/
theorem not_moves_of_empty {insert : ℕ → Option ℕ → List ProcessControlBlock →
      Except Fault (Option ℕ × List ProcessControlBlock)}
    (h : DisjointQueues pcbs headA headB (pcb :: restA) []) (hrest : restA ≠ [])
    (hinsert : ∀ pcb pcbs, insert pcb none pcbs = .ok (some pcb, pcbs))
    (pcbs' : List ProcessControlBlock) : ¬ Moves insert pcbs headA headB pcbs' restA [pcb] := by
  rintro ⟨popped, headA', headB', hpop, hins, hqueues, -⟩
  rw [popFront_cons h.linkedA (h.valid pcb (by simp))] at hpop
  obtain ⟨rfl, -⟩ : pcb = popped ∧ nextOf pcbs pcb = headA' := by simpa using hpop
  rw [linked_nil.mp h.linkedB, hinsert] at hins
  obtain ⟨-, rfl⟩ : some pcb = headB' ∧ pcbs = pcbs' := by simpa using hins
  have hend : nextOf pcbs pcb = none := hqueues.linkedB.2
  have hmore := h.linkedA.2
  rw [hend, linked_none] at hmore
  exact hrest hmore

/-- INTERNAL: the condition is necessary for appending.
SOURCE: process-scheduler.c:140-158 -/
theorem condition_of_appendsOne (h : DisjointQueues pcbs headA headB (pcb :: restA) chainB)
    (happends : AppendsOne pcbs headA headB pcb restA chainB) : chainB ≠ [] ∨ restA = [] := by
  by_contra hno
  push Not at hno
  obtain ⟨rfl, hrest⟩ := hno
  obtain ⟨pcbs', hmoves⟩ := happends
  exact not_moves_of_empty h hrest (fun _ _ => rfl) pcbs' hmoves

/-- INTERNAL: the condition is necessary for adding in order.
SOURCE: process-scheduler.c:80-88, 140-148 -/
theorem condition_of_addsOne (h : DisjointQueues pcbs headA headB (pcb :: restA) chainB)
    (hadds : AddsOne pcbs headA headB pcb restA chainB) : chainB ≠ [] ∨ restA = [] := by
  by_contra hno
  push Not at hno
  obtain ⟨rfl, hrest⟩ := hno
  obtain ⟨pcbs', before, after, heq, -, -, hmoves, -⟩ := hadds
  obtain ⟨rfl, rfl⟩ := List.append_eq_nil_iff.mp heq.symm
  exact not_moves_of_empty h hrest (fun _ _ => rfl) pcbs' hmoves

/-- INTERNAL: one block is moved by an insertion that puts it somewhere into the chain of B and
leaves the other links and every core alone.
SOURCE: process-scheduler.c:140-148 -/
theorem moves_of_insert {insert : ℕ → Option ℕ → List ProcessControlBlock →
      Except Fault (Option ℕ × List ProcessControlBlock)} {before after : List ℕ}
    {headB' : Option ℕ} {pcbs' : List ProcessControlBlock}
    (h : DisjointQueues pcbs headA headB (pcb :: restA) (before ++ after))
    (hins : insert pcb headB pcbs = .ok (headB', pcbs'))
    (hlinked : Linked (nextOf pcbs') headB' (before ++ pcb :: after))
    (hframe : ∀ i, i ∉ before ++ after → i ≠ pcb → nextOf pcbs' i = nextOf pcbs i)
    (hcore : ∀ i, coreOf pcbs' i = coreOf pcbs i) (hlen : pcbs'.length = pcbs.length) :
    Moves insert pcbs headA headB pcbs' restA (before ++ pcb :: after) := by
  have hpop := popFront_cons h.linkedA (h.valid pcb (by simp))
  have hpcb : pcb ∉ restA := (List.nodup_cons.mp h.linkedA.nodup).1
  have happart : ∀ x ∈ restA, x ∉ before ++ after := fun x hx =>
    h.disjoint (List.mem_cons_of_mem _ hx)
  refine ⟨pcb, nextOf pcbs pcb, headB', hpop, hins, ⟨?_, hlinked, ?_, ?_⟩, hcore⟩
  · apply h.linkedA.2.congr
    intro x hx
    apply hframe x (happart x hx)
    rintro rfl
    exact hpcb hx
  · intro x hx
    rw [hlen]
    exact h.valid x (by grind)
  · intro x hx hxB
    have := happart x hx
    grind

/-- INTERNAL: the condition is enough for appending.
SOURCE: process-scheduler.c:150-175 -/
theorem appendsOne_of_condition (h : DisjointQueues pcbs headA headB (pcb :: restA) chainB)
    (hcond : chainB ≠ [] ∨ restA = []) : AppendsOne pcbs headA headB pcb restA chainB := by
  have hnot : pcb ∉ chainB := h.disjoint (by simp)
  obtain ⟨headB', pcbs', hins, hlinked, hframe, hcore, hlen⟩ := append_linked h.linkedB
    (fun y hy => h.valid y (by simp [hy])) (h.valid pcb (by simp)) hnot (h.next_of_condition hcond)
  have hdisjoint : DisjointQueues pcbs headA headB (pcb :: restA) (chainB ++ []) := by
    rw [List.append_nil]
    exact h
  refine ⟨pcbs', moves_of_insert hdisjoint hins hlinked ?_ hcore hlen⟩
  rw [List.append_nil]
  exact hframe

/-- INTERNAL: the condition is enough for adding in order.
SOURCE: process-scheduler.c:80-138 -/
theorem addsOne_of_condition (h : DisjointQueues pcbs headA headB (pcb :: restA) chainB)
    (hsorted : SortedByKey pcbs chainB) (hcond : chainB ≠ [] ∨ restA = []) :
    AddsOne pcbs headA headB pcb restA chainB := by
  have hnot : pcb ∉ chainB := h.disjoint (by simp)
  obtain ⟨headB', pcbs', before, after, hins, rfl, hbefore, hfirst, hlinked, hframe, hcore, hlen⟩ :=
    add_linked h.linkedB (fun y hy => h.valid y (List.mem_append_right _ hy))
      (h.valid pcb (by simp)) hnot (h.next_of_condition hcond)
  have hafter := lt_of_lt_head hsorted hfirst
  refine ⟨pcbs', before, after, rfl, hbefore, hafter,
    moves_of_insert h hins hlinked hframe hcore hlen, ?_⟩
  unfold SortedByKey
  simp only [keyOf_congr hcore]
  exact sortedByKey_insert hsorted hbefore hafter

end Queues

/-- **When exactly one block is moved.** For any two disjoint queues A and B, A not empty:
popping a block off A and appending it to B leaves A as its old rest and B as its old chain
with that block behind it, if and only if B is not empty or A is empty afterwards. If B is
sorted, the same condition decides whether adding it in order leaves A as its old rest and B
sorted, with that block behind every block of the same key and nothing else changed.
SOURCE: process-scheduler.c:80-175 -/
theorem moves_one_pcb_iff {pcbs : List ProcessControlBlock} {headA headB : Option ℕ} {pcb : ℕ}
    {restA chainB : List ℕ} (h : DisjointQueues pcbs headA headB (pcb :: restA) chainB) :
    (AppendsOne pcbs headA headB pcb restA chainB ↔ chainB ≠ [] ∨ restA = []) ∧
      (SortedByKey pcbs chainB →
        (AddsOne pcbs headA headB pcb restA chainB ↔ chainB ≠ [] ∨ restA = [])) := by
  refine ⟨⟨condition_of_appendsOne h, appendsOne_of_condition h⟩, fun hsorted => ?_⟩
  exact ⟨condition_of_addsOne h, addsOne_of_condition h hsorted⟩

/-- The blocks of the processes with these ids, priorities and links. -/
def blocks (data : List (ℤ × ℕ × Option ℕ)) : List ProcessControlBlock :=
  data.map fun (processId, priority, next) =>
    { next := next, processId := processId, processState := .ready, processMemory := 0,
      priority := priority, jobTime := 1, burstTime := 0, cpuTime := 0 }

/-- The first of two blocks goes into a queue of three, between two of them.
SOURCE: process-scheduler.c:80-175 -/
theorem moves_one_pcb_into_three :
    AddsOne (blocks [(7, 2, some 1), (9, 2, none), (3, 1, some 3), (7, 2, some 4), (1, 3, none)])
      (some 0) (some 2) 0 [1] [2, 3, 4] := by
  have hqueues : DisjointQueues (blocks [(7, 2, some 1), (9, 2, none), (3, 1, some 3),
      (7, 2, some 4), (1, 3, none)]) (some 0) (some 2) [0, 1] [2, 3, 4] :=
    ⟨by simp [blocks, nextOf], by simp [blocks, nextOf], by simp [blocks], by simp⟩
  exact ((moves_one_pcb_iff hqueues).2 (by unfold SortedByKey; decide)).mpr (by decide)

/-- The first of two blocks goes into an empty queue, and the second one comes along.
SOURCE: process-scheduler.c:84-88, 142-147, 154-158 -/
theorem whole_rest_comes_along :
    DisjointQueues (blocks [(7, 1, some 1), (8, 1, none)]) (some 0) none [0, 1] [] ∧
      ¬ AppendsOne (blocks [(7, 1, some 1), (8, 1, none)]) (some 0) none 0 [1] [] ∧
      ¬ AddsOne (blocks [(7, 1, some 1), (8, 1, none)]) (some 0) none 0 [1] [] ∧
      appendPcbToPcbsList 0 none (blocks [(7, 1, some 1), (8, 1, none)]) =
        .ok (some 0, blocks [(7, 1, some 1), (8, 1, none)]) ∧
      Linked (nextOf (blocks [(7, 1, some 1), (8, 1, none)])) (some 0) [0, 1] := by
  have hqueues : DisjointQueues (blocks [(7, 1, some 1), (8, 1, none)]) (some 0) none [0, 1] [] :=
    ⟨by simp [blocks, nextOf], rfl, by simp [blocks], by simp⟩
  refine ⟨hqueues, ?_, ?_, rfl, hqueues.linkedA⟩
  · intro happends
    exact absurd (condition_of_appendsOne hqueues happends) (by decide)
  · intro hadds
    exact absurd (condition_of_addsOne hqueues hadds) (by decide)

end Comp30023.Analysis
