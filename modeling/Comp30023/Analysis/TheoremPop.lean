import Comp30023.Analysis.TheoremLinkedList

/-!
# Popping the last element

`poplinkedlist` looks for the node before the foot and makes it the foot. A list of one element
has no such node: its element is returned, and stays on the list.
-/

set_option autoImplicit false

namespace Comp30023.Analysis

open Comp30023.Library Comp30023.Model Comp30023.Interface

variable {α : Type} {s : ListState α} {nodes ps rs : List ℕ} {xs us ws : List α} {p q : ℕ}
  {x y : α}

/-- The last element is returned, and the list stands for the others. -/
def PopsLast (s : ListState α) (xs : List α) : Prop :=
  ∃ x s' nodes', xs.getLast? = some x ∧ poplinkedlist s = .ok (x, s') ∧
    RepresentsList s' nodes' xs.dropLast

/-- INTERNAL: a pass at a node that is not before the foot.
SOURCE: linked-list.c:297, 305 -/
theorem popLoop_next {n : LinkedListNode α} (fuel : ℕ) (hn : s.heap.cell p = some n)
    (hfoot : n.next ≠ s.list.foot) :
    popLoop (fuel + 1) s (some p) = popLoop fuel s n.next := by
  simp only [popLoop, getNode_ok hn, bind, Except.bind, if_neg hfoot]

/-- INTERNAL: the pass at the node before the foot, which is the last one.
SOURCE: linked-list.c:297-305 -/
theorem popLoop_found (fuel : ℕ) (h : RepresentsList s (ps ++ [p, q]) (us ++ [x, y]))
    (hlength : ps.length = us.length) :
    ∃ s', popLoop (fuel + 1) s (some p) = .ok s' ∧ RepresentsList s' (ps ++ [p]) (us ++ [x]) := by
  obtain ⟨n, hn, rfl, hnext⟩ := h.chain.cell_append hlength
  obtain ⟨m, hm⟩ := h.chain.live (p := q) (by simp)
  have hpq : p ≠ q := (ne_of_mem_of_not_mem (by simp) h.not_mem_others).symm
  have hfoot : s.list.foot = some q := by
    rw [h.foot]
    simp
  have hn' : (s.heap.erase q).cell p = some n := by
    rw [Heap.cell_erase_of_ne _ hpq, hn]
  have hlast : ((s.heap.erase q).set p { n with next := none }).cell p =
      some { n with next := none } := Heap.cell_set_self _ _ _
  refine ⟨⟨(s.heap.erase q).set p { n with next := none },
    { s.list with foot := some p, size := s.list.size - 1 }⟩, ?_, ?_⟩
  · rw [List.head?_cons] at hnext
    simp only [popLoop, getNode_ok hn, bind, Except.bind, hnext, hfoot, if_true, freeNode_ok hm,
      setNext_ok hn', getNode_ok hlast, popLoop]
  · refine h.delete hlength hlast ?_ rfl rfl rfl
    intro r hr hrq
    rw [Heap.cell_set_of_ne _ _ hr, Heap.cell_erase_of_ne _ hrq]

/-- The loop from any node before the foot on.
SOURCE: linked-list.c:293-306 -/
theorem popLoop_spec {fuel : ℕ}
    (h : RepresentsList s (ps ++ (rs ++ [p, q])) (us ++ (ws ++ [x, y])))
    (hlength : ps.length = us.length) (hrest : rs.length = ws.length) (hfuel : rs.length < fuel) :
    ∃ s' nodes', popLoop fuel s (rs ++ [p, q]).head? = .ok s' ∧
      RepresentsList s' nodes' (us ++ (ws ++ [x])) := by
  obtain ⟨fuel, rfl⟩ := Nat.exists_eq_add_one.mpr (Nat.zero_lt_of_lt hfuel)
  induction rs generalizing ps us ws fuel with
  | nil =>
    obtain rfl : ws = [] := List.length_eq_zero_iff.mp hrest.symm
    obtain ⟨s', hloop, hrep⟩ := popLoop_found fuel h hlength
    exact ⟨s', ps ++ [p], hloop, hrep⟩
  | cons r rs ih =>
    obtain ⟨w, ws, rfl⟩ := List.exists_cons_of_length_eq_add_one hrest.symm
    obtain ⟨n, hn, rfl, hnext⟩ := h.chain.cell_append hlength
    change n.next = (rs ++ [p, q]).head? at hnext
    have hnotfoot : n.next ≠ s.list.foot := by
      have hfoot : s.list.foot = some q := by
        rw [h.foot]
        simp [List.getLast?_cons]
      have hnodup : (rs ++ [p, q]).Nodup :=
        (List.nodup_cons.mp (List.nodup_append.mp h.nodup).2.1).2
      rw [hnext, hfoot]
      intro heq
      cases rs with
      | nil => simp_all
      | cons t rs =>
        obtain rfl : t = q := by simpa using heq
        simp at hnodup
    obtain ⟨fuel, rfl⟩ := Nat.exists_eq_add_one.mpr
      (Nat.zero_lt_of_lt (Nat.lt_of_succ_lt_succ hfuel))
    obtain ⟨s', nodes', hloop, hrep⟩ :=
      ih h.move (by simp [hlength]) (by simpa using hrest) fuel (by simpa using hfuel)
    refine ⟨s', nodes', ?_, by simpa using hrep⟩
    rw [List.cons_append, List.head?_cons, popLoop_next _ hn hnotfoot, hnext, hloop]

/-- INTERNAL: what is returned, and how the loop is entered.
SOURCE: linked-list.c:281-309 -/
theorem poplinkedlist_eq (h : RepresentsList s nodes xs) (hne : xs ≠ []) :
    ∃ x, xs.getLast? = some x ∧ poplinkedlist s =
      (popLoop (s.heap.fresh + 1) s nodes.head?).map fun s => (x, s) := by
  obtain ⟨ps, p, us, x, rfl, rfl, hlength, hfoot⟩ := h.exists_foot hne
  obtain ⟨n, hn, rfl, -⟩ := h.chain.cell_append hlength
  have hhead : s.list.head.isSome = true := by
    rw [Option.isSome_iff_ne_none, Ne, h.null_iff.1, h.size]
    simp
  refine ⟨n.data, by simp, ?_⟩
  unfold poplinkedlist
  simp only [hhead, h.consistent, Bool.and_self, assertThat, if_true, bind, Except.bind, hfoot,
    getNode_ok hn]
  rw [h.chain.linked.head?]
  rfl

/-- INTERNAL: a list of two elements or more loses its last one.
SOURCE: linked-list.c:281-309 -/
theorem popsLast_of_two (h : RepresentsList s nodes xs) (htwo : 2 ≤ xs.length) : PopsLast s xs := by
  have hlength := h.chain.length_eq
  obtain ⟨y, hy, hpop⟩ := poplinkedlist_eq h (by rintro rfl; simp at htwo)
  rcases List.eq_nil_or_concat xs with rfl | ⟨xs, b, rfl⟩
  · simp at htwo
  rcases List.eq_nil_or_concat xs with rfl | ⟨ws, a, rfl⟩
  · simp at htwo
  rcases List.eq_nil_or_concat nodes with rfl | ⟨nodes, q, rfl⟩
  · simp at hlength
  rcases List.eq_nil_or_concat nodes with rfl | ⟨rs, p, rfl⟩
  · simp at hlength
  simp only [List.concat_eq_append, List.append_assoc, List.singleton_append, List.length_append,
    List.length_cons, List.length_nil, Nat.add_right_cancel_iff] at *
  have hfuel : rs.length < s.heap.fresh + 1 := by
    have := h.chain.length_le
    simp only [List.length_append, List.length_cons, List.length_nil] at this
    omega
  have hwhole : RepresentsList s ([] ++ (rs ++ [p, q])) ([] ++ (ws ++ [a, b])) := h
  obtain ⟨s', nodes', hloop, hrep⟩ := popLoop_spec hwhole rfl hlength hfuel
  refine ⟨y, s', nodes', hy, ?_, ?_⟩
  · rw [hpop, hloop]
    rfl
  · simpa using hrep

/-- INTERNAL: a list of one element stays as it is.
SOURCE: linked-list.c:281-309 -/
theorem poplinkedlist_one (h : RepresentsList s nodes [x]) : poplinkedlist s = .ok (x, s) := by
  obtain ⟨y, hy, hpop⟩ := poplinkedlist_eq h (by simp)
  obtain ⟨p, rfl⟩ := List.length_eq_one_iff.mp h.chain.length_eq
  obtain ⟨n, -, hn, rfl, hend⟩ := chain_cons.mp h.chain
  have hnull : n.next = none := (chain_nil.mp hend).1
  have hfoot : n.next ≠ s.list.foot := by
    rw [hnull, h.foot]
    simp
  obtain rfl : n.data = y := by simpa using hy
  rw [hpop, List.head?_cons, popLoop_next _ hn hfoot, hnull]
  cases s.heap.fresh <;> rfl

/-- INTERNAL: a list that loses its last element has two at least.
SOURCE: linked-list.c:281-309 -/
theorem two_of_popsLast (h : RepresentsList s nodes xs) (hpops : PopsLast s xs) :
    2 ≤ xs.length := by
  obtain ⟨y, s', nodes', hlast, hpop, hrep⟩ := hpops
  by_contra hfew
  have hlen : xs.length = 1 := by
    have hne : xs ≠ [] := by
      rintro rfl
      cases hlast
    have := List.length_pos_iff.mpr hne
    omega
  obtain ⟨x, rfl⟩ := List.length_eq_one_iff.mp hlen
  rw [poplinkedlist_one h] at hpop
  obtain ⟨-, rfl⟩ : x = y ∧ s = s' := by simpa using hpop
  have hsize := h.size_eq
  rw [hrep.size_eq] at hsize
  simp at hsize

/-- **When a pop removes the last element.** For every linked list whose nodes carry a sequence
of data that is not empty: `poplinkedlist` returns the last of them and leaves a well-formed
list of the others if and only if there are two of them at least. In a list of one element it
returns the element and changes nothing.
SOURCE: linked-list.c:281-309 -/
theorem pops_last_iff (h : RepresentsList s nodes xs) (hne : xs ≠ []) :
    (PopsLast s xs ↔ 2 ≤ xs.length) ∧
      (xs.length = 1 → ∃ x, xs = [x] ∧ poplinkedlist s = .ok (x, s)) := by
  refine ⟨⟨two_of_popsLast h, popsLast_of_two h⟩, ?_⟩
  intro hlen
  obtain ⟨x, rfl⟩ := List.length_eq_one_iff.mp hlen
  exact ⟨x, rfl, poplinkedlist_one h⟩

/-- The list of `7`, `8` and `9`, with a freed node.
SOURCE: linked-list.c:281-309 -/
theorem pops_last_of_three :
    PopsLast ⟨((((Heap.empty.set 4 ⟨7, some 0⟩).set 0 ⟨8, some 6⟩).set 6 ⟨9, none⟩).set 1
      ⟨(5 : ℤ), none⟩).erase 1, ⟨some 4, some 6, 3⟩⟩ [7, 8, 9] := by
  have hrep : RepresentsList ⟨((((Heap.empty.set 4 ⟨7, some 0⟩).set 0 ⟨8, some 6⟩).set 6
      ⟨9, none⟩).set 1 ⟨(5 : ℤ), none⟩).erase 1, ⟨some 4, some 6, 3⟩⟩ [4, 0, 6] [7, 8, 9] :=
    ⟨⟨⟨rfl, rfl, rfl, rfl⟩, rfl⟩, rfl, rfl⟩
  exact (pops_last_iff hrep (by decide)).1.mpr (by decide)

/-- One element is appended to a new list and popped: it is returned, and is still there.
SOURCE: linked-list.c:281-309 -/
theorem pop_keeps_only_element :
    ∃ s, performCalls (Allocator.next (LinkedListNode ℤ)) [.append 7] ⟨Heap.empty, newlinkedlist⟩ =
        .ok ([.void], s) ∧
      RepresentsList s [0] [7] ∧ poplinkedlist s = .ok (7, s) ∧ ¬ PopsLast s [7] := by
  have hrep : RepresentsList ⟨Heap.empty.set 0 ⟨(7 : ℤ), none⟩, ⟨some 0, some 0, 1⟩⟩ [0] [7] :=
    ⟨⟨⟨rfl, rfl⟩, rfl⟩, rfl, rfl⟩
  refine ⟨_, rfl, hrep, poplinkedlist_one hrep, ?_⟩
  exact fun hpops => absurd (two_of_popsLast hrep hpops) (by decide)

end Comp30023.Analysis
