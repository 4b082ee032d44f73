import Comp30023.Interface.ListNodes
import Mathlib.Algebra.Ring.Int.Defs
import Mathlib.Tactic.Ring

/-!
# The linked list is a list

Every call that changes a linked list does to its nodes what an operation on lists does to the
data they carry. The head, the foot, the size and the links are set by separate branches, for
the only node, the head, the foot and the nodes between them; each of them keeps the list well
formed, so none of the asserts fails, and what can be asked of the list is what can be asked
of the data.
-/

set_option autoImplicit false

namespace Comp30023.Analysis

open Comp30023.Library Comp30023.Model Comp30023.Interface

/-! ## Hanging nodes in -/

/-- INTERNAL: an insertion behind the element at a position. -/
theorem insertIdx_behind {α : Type} (us : List α) (x d : α) (vs : List α) :
    (us ++ x :: vs).insertIdx (us.length + 1) d = us ++ x :: d :: vs := by
  induction us with
  | nil => rfl
  | cons u us ih => rw [List.length_cons, List.cons_append, List.insertIdx_succ_cons, ih,
      List.cons_append]

section Insertion

variable {α : Type} {s : ListState α} {nodes : List ℕ} {xs : List α}

/-- INTERNAL: the new node becomes the only one.
SOURCE: linked-list.c:199-204, 237-242 -/
theorem representsList_only (malloc : Allocator (LinkedListNode α)) (heap : Heap (LinkedListNode α))
    (d : α) :
    RepresentsList ⟨(malloc.alloc heap ⟨d, none⟩).2, ⟨some (malloc.alloc heap ⟨d, none⟩).1,
      some (malloc.alloc heap ⟨d, none⟩).1, 1⟩⟩ [(malloc.alloc heap ⟨d, none⟩).1] [d] := by
  refine ⟨chain_cons.mpr ⟨⟨d, none⟩, rfl, ?_, rfl, chain_nil.mpr ⟨rfl, rfl⟩⟩, rfl, rfl⟩
  exact Heap.cell_set_self _ _ _

/-- The new node becomes the foot of a list that is not empty.
SOURCE: linked-list.c:206-211, 254-259 -/
theorem hangFoot (malloc : Allocator (LinkedListNode α)) (d : α) (h : RepresentsList s nodes xs)
    (hne : xs ≠ []) :
    ∃ heap nodes', setNext (malloc.alloc s.heap ⟨d, none⟩).2 s.list.foot
        (some (malloc.alloc s.heap ⟨d, none⟩).1) = .ok heap ∧
      RepresentsList ⟨heap, { s.list with
        foot := some (malloc.alloc s.heap ⟨d, none⟩).1
        size := s.list.size + 1 }⟩ nodes' (xs ++ [d]) := by
  obtain ⟨ps, p, us, x, rfl, rfl, hlength, hfoot⟩ := h.exists_foot hne
  obtain ⟨v, hv, rfl, -⟩ := h.chain.cell_append hlength
  have hdead := malloc.isDead s.heap
  have hpq : p ≠ malloc.address s.heap :=
    ne_of_mem_of_not_mem (by simp) (h.not_mem_of_dead hdead)
  have hp : (s.heap.set (malloc.address s.heap) ⟨d, none⟩).cell p = some v := by
    rw [Heap.cell_set_of_ne _ _ hpq]
    exact hv
  rw [hfoot, List.append_assoc]
  refine ⟨_, ps ++ [p, malloc.address s.heap], setNext_ok hp _, ?_⟩
  refine h.insert hlength hdead (Heap.cell_set_self _ _ _) ?_ ?_ rfl rfl rfl
  · rw [Heap.cell_set_of_ne _ _ hpq.symm, Heap.cell_set_self]
    rfl
  · intro r hr hrq
    rw [Heap.cell_set_of_ne _ _ hr, Heap.cell_set_of_ne _ _ hrq]

/-- SOURCE: linked-list.c:182-214 -/
theorem appendlinkedlist_spec (malloc : Allocator (LinkedListNode α)) (d : α)
    (h : RepresentsList s nodes xs) :
    ∃ s' nodes', appendlinkedlist malloc d s = .ok s' ∧ RepresentsList s' nodes' (xs ++ [d]) := by
  unfold appendlinkedlist
  simp only [h.consistent, assertThat, if_true, bind, Except.bind]
  by_cases hempty : xs = []
  · subst hempty
    rw [if_pos (by rw [h.size_eq]; rfl)]
    exact ⟨_, _, rfl, representsList_only malloc s.heap d⟩
  · have hsize : s.list.size ≠ 0 := by
      rw [h.size_eq]
      exact fun hzero => hempty (List.length_eq_zero_iff.mp hzero)
    obtain ⟨heap, nodes', hset, hwf⟩ := hangFoot malloc d h hempty
    rw [if_neg hsize, hset]
    exact ⟨_, nodes', rfl, hwf⟩

/-- INTERNAL: the new node becomes the head.
SOURCE: linked-list.c:247-252 -/
theorem hangHead (malloc : Allocator (LinkedListNode α)) (d : α) (h : RepresentsList s nodes xs)
    (hne : xs ≠ []) :
    ∃ heap nodes', setNext (malloc.alloc s.heap ⟨d, none⟩).2
        (some (malloc.alloc s.heap ⟨d, none⟩).1) s.list.head = .ok heap ∧
      RepresentsList ⟨heap, { s.list with
        head := some (malloc.alloc s.heap ⟨d, none⟩).1
        size := s.list.size + 1 }⟩ nodes' (d :: xs) := by
  have hnodes : nodes ≠ [] := by
    rintro rfl
    exact hne (chain_nil.mp h.chain).2
  refine ⟨_, malloc.address s.heap :: nodes, setNext_ok (Heap.cell_set_self _ _ _) _, ?_, ?_, ?_⟩
  · refine h.chain.cons ?_ (w := ⟨d, s.list.head⟩) (Heap.cell_set_self _ _ _) rfl
    intro p hp
    have hpq : p ≠ malloc.address s.heap :=
      ne_of_mem_of_not_mem hp (h.not_mem_of_dead (malloc.isDead s.heap))
    rw [Heap.cell_set_of_ne _ _ hpq]
    exact Heap.cell_set_of_ne _ _ hpq
  · show s.list.foot = _
    rw [h.foot, List.getLast?_cons, List.getLast?_eq_getLast_of_ne_nil hnodes]
    rfl
  · show s.list.size + 1 = _
    rw [h.size, List.length_cons]

/-- The new node is hung in behind the node before the position.
SOURCE: linked-list.c:261-275 -/
theorem hangMiddle (malloc : Allocator (LinkedListNode α)) (d : α) {index : ℕ}
    (h : RepresentsList s nodes xs) (hpos : 0 < index) (hlt : index < xs.length) :
    ∃ nodei ni heap heap' nodes',
      walk (malloc.alloc s.heap ⟨d, none⟩).2 (index - 1) s.list.head = .ok nodei ∧
      getNode (malloc.alloc s.heap ⟨d, none⟩).2 nodei = .ok ni ∧
      setNext (malloc.alloc s.heap ⟨d, none⟩).2 (some (malloc.alloc s.heap ⟨d, none⟩).1) ni.next =
        .ok heap ∧
      setNext heap nodei (some (malloc.alloc s.heap ⟨d, none⟩).1) = .ok heap' ∧
      RepresentsList ⟨heap', { s.list with size := s.list.size + 1 }⟩ nodes'
        (xs.insertIdx index d) := by
  obtain ⟨ps, p, qs, us, x, vs, rfl, rfl, hps, hus⟩ :=
    h.chain.split (i := index - 1) (by omega)
  have hlength : ps.length = us.length := by omega
  obtain ⟨v, hv, rfl, hnext⟩ := h.chain.cell_append hlength
  have hdead := malloc.isDead s.heap
  have hoff : ∀ r ∈ ps ++ p :: qs, r ≠ malloc.address s.heap := fun r hr =>
    ne_of_mem_of_not_mem hr (h.not_mem_of_dead hdead)
  have hframe : ∀ r, r ≠ malloc.address s.heap →
      (malloc.alloc s.heap ⟨d, none⟩).2.cell r = s.heap.cell r :=
    fun r hr => Heap.cell_set_of_ne _ _ hr
  have hpq := hoff p (by simp)
  have hchain : Chain _ _ (malloc.alloc s.heap ⟨d, none⟩).2 _ _ _ :=
    h.chain.congr fun r hr => hframe r (hoff r hr)
  have hp : (malloc.alloc s.heap ⟨d, none⟩).2.cell p = some v := by
    rw [hframe p hpq, hv]
  have hp' : ((malloc.alloc s.heap ⟨d, none⟩).2.set (malloc.address s.heap)
      ⟨d, v.next⟩).cell p = some v := by
    rw [Heap.cell_set_of_ne _ _ hpq, hp]
  have hqs : qs ≠ [] := by
    rintro rfl
    have := h.chain.length_eq
    simp only [List.length_append, List.length_cons, List.length_nil] at this hlt
    omega
  refine ⟨some p, v, _, _, ps ++ p :: malloc.address s.heap :: qs, ?_, getNode_ok hp,
    setNext_ok (Heap.cell_set_self _ _ _) _, setNext_ok hp' _, ?_⟩
  · rw [← hps]
    exact walk_chain hchain hlength
  · have hdata : (us ++ v.data :: vs).insertIdx index d = us ++ v.data :: d :: vs := by
      obtain ⟨i, rfl⟩ := Nat.exists_eq_add_one.mpr hpos
      rw [Nat.add_sub_cancel] at hus
      rw [← hus, insertIdx_behind]
    rw [hdata]
    refine h.insert hlength hdead (Heap.cell_set_self _ _ _) ?_ ?_ rfl rfl ?_
    · rw [Heap.cell_set_of_ne _ _ hpq.symm, Heap.cell_set_self, hnext]
    · intro r hr hrq
      rw [Heap.cell_set_of_ne _ _ hr, Heap.cell_set_of_ne _ _ hrq, hframe r hrq]
    · rw [if_neg hqs]

/-- SOURCE: linked-list.c:216-279 -/
theorem addlinkedlist_spec (malloc : Allocator (LinkedListNode α)) (d : α) {index : ℕ}
    (h : RepresentsList s nodes xs) (hle : index ≤ xs.length) :
    ∃ s' nodes', addlinkedlist malloc index d s = .ok s' ∧
      RepresentsList s' nodes' (xs.insertIdx index d) := by
  have hsize := h.size_eq
  unfold addlinkedlist
  simp only [h.consistent, assertThat, hsize, ge_iff_le, hle, decide_true, Bool.and_true, if_true,
    bind, Except.bind]
  by_cases hempty : xs = []
  · subst hempty
    obtain rfl : index = 0 := by simpa using hle
    rw [if_pos (by rfl)]
    exact ⟨_, _, rfl, representsList_only malloc s.heap d⟩
  · have hne : xs.length ≠ 0 := fun hzero => hempty (List.length_eq_zero_iff.mp hzero)
    rw [if_neg hne]
    by_cases hzero : index = 0
    · obtain ⟨heap, nodes', hset, hrep⟩ := hangHead malloc d h hempty
      subst hzero
      rw [if_pos rfl, hset]
      refine ⟨_, nodes', rfl, ?_⟩
      rw [List.insertIdx_zero, ← hsize]
      exact hrep
    · rw [if_neg hzero]
      by_cases hend : index = xs.length
      · obtain ⟨heap, nodes', hset, hrep⟩ := hangFoot malloc d h hempty
        rw [if_pos hend, hset]
        refine ⟨_, nodes', rfl, ?_⟩
        rw [hend, List.insertIdx_length_self, ← hsize]
        exact hrep
      · obtain ⟨nodei, ni, heap, heap', nodes', hwalk, hload, hset, hset', hrep⟩ :=
          hangMiddle malloc d h (Nat.pos_of_ne_zero hzero) (Nat.lt_of_le_of_ne hle hend)
        rw [if_neg hend]
        simp only [hwalk, hload, hset, hset']
        exact ⟨_, nodes', rfl, hsize ▸ hrep⟩

end Insertion

/-! ## Taking nodes out -/

section Removal

variable {α : Type} {s : ListState α} {ps qs : List ℕ} {us vs : List α} {p q : ℕ} {x y : α}

/-- INTERNAL: the only node is freed.
SOURCE: linked-list.c:328-335, 403-409 -/
theorem freeOnly (h : RepresentsList s [p] [x]) :
    ∃ n s', getNode s.heap s.list.head = .ok n ∧ n.data = x ∧ freeOnlyNode s = .ok s' ∧
      RepresentsList s' [] [] := by
  obtain ⟨n, hhead, hn, rfl, -⟩ := chain_cons.mp h.chain
  refine ⟨n, ⟨s.heap.erase p, newlinkedlist⟩, ?_, rfl, ?_, representsList_new _⟩
  · rw [hhead]
    exact getNode_ok hn
  · unfold freeOnlyNode
    rw [hhead, freeNode_ok hn]
    rfl

/-- INTERNAL: the head of a list of two nodes or more is freed.
SOURCE: linked-list.c:340-347, 414-419 -/
theorem takeHead (h : RepresentsList s (p :: q :: qs) (x :: y :: vs)) :
    ∃ n heap, s.list.head = some p ∧ getNode s.heap (some p) = .ok n ∧ n.data = x ∧
      freeNode s.heap (some p) = .ok heap ∧
      RepresentsList ⟨heap, { s.list with head := n.next, size := s.list.size - 1 }⟩ (q :: qs)
        (y :: vs) := by
  obtain ⟨n, hhead, hn, rfl, hrest⟩ := chain_cons.mp h.chain
  refine ⟨n, _, hhead, getNode_ok hn, rfl, freeNode_ok hn, ?_, ?_, ?_⟩
  · apply hrest.congr
    intro r hr
    apply Heap.cell_erase_of_ne
    rintro rfl
    exact (List.nodup_cons.mp h.nodup).1 hr
  · show s.list.foot = _
    rw [h.foot]
    simp [List.getLast?_cons]
  · show s.list.size - 1 = _
    rw [h.size]
    rfl

/-- INTERNAL: the node behind another one is unhooked and freed.
SOURCE: linked-list.c:360-375, 423-430 -/
theorem takeBehind (h : RepresentsList s (ps ++ p :: q :: qs) (us ++ x :: y :: vs))
    (hlength : ps.length = us.length) :
    ∃ n heap heap', getNode s.heap (some q) = .ok n ∧ n.data = y ∧ n.next = qs.head? ∧
      setNext s.heap (some p) n.next = .ok heap ∧ freeNode heap (some q) = .ok heap' ∧
      RepresentsList ⟨heap', { s.list with
        foot := if qs = [] then some p else s.list.foot
        size := s.list.size - 1 }⟩ (ps ++ p :: qs) (us ++ x :: vs) := by
  obtain ⟨n, hn, rfl, hnext⟩ := h.move.chain.cell_append (by simp [hlength])
  obtain ⟨v, hv, rfl, -⟩ := h.chain.cell_append hlength
  have hqp : q ≠ p := ne_of_mem_of_not_mem (by simp) h.not_mem_others
  have hn' : (s.heap.set p { v with next := n.next }).cell q = some n := by
    rw [Heap.cell_set_of_ne _ _ hqp, hn]
  refine ⟨n, _, _, getNode_ok hn, rfl, hnext, setNext_ok hv _, freeNode_ok hn', ?_⟩
  refine h.delete hlength ?_ ?_ rfl rfl rfl
  · rw [Heap.cell_erase_of_ne _ hqp.symm, Heap.cell_set_self, hnext]
  · intro r hr hrq
    rw [Heap.cell_erase_of_ne _ hrq, Heap.cell_set_of_ne _ _ hr]

/-- INTERNAL: a node is the foot exactly when no node is behind it. -/
theorem foot_iff (h : RepresentsList s (ps ++ q :: qs) (us ++ y :: vs)) :
    some q = s.list.foot ↔ qs = [] := by
  rw [h.foot]
  constructor
  · intro hlast
    by_contra hne
    have hmem : q ∈ qs := by
      rw [List.getLast?_append_of_ne_nil _ (List.cons_ne_nil _ _), List.getLast?_cons,
        List.getLast?_eq_getLast_of_ne_nil hne] at hlast
      rw [Option.some.inj hlast]
      exact List.getLast_mem hne
    exact h.not_mem_others (List.mem_append_right _ hmem)
  · rintro rfl
    simp

/-- INTERNAL: a list of two elements or more. -/
theorem exists_cons_cons {β : Type} {l : List β} (h : 1 < l.length) :
    ∃ a b t, l = a :: b :: t := by
  obtain ⟨a, l, rfl⟩ := List.exists_cons_of_length_pos (Nat.zero_lt_of_lt h)
  obtain ⟨b, t, rfl⟩ := List.exists_cons_of_length_pos (Nat.lt_of_succ_lt_succ h)
  exact ⟨a, b, t, rfl⟩

/-- SOURCE: linked-list.c:311-380 -/
theorem removeatlinkedlist_spec {nodes : List ℕ} {xs : List α} {index : ℕ}
    (h : RepresentsList s nodes xs) (hlt : index < xs.length) :
    ∃ s' nodes', removeatlinkedlist index s = .ok (xs[index], s') ∧
      RepresentsList s' nodes' (xs.eraseIdx index) := by
  have hsize := h.size_eq
  have hlength := h.chain.length_eq
  unfold removeatlinkedlist
  simp only [h.consistent, assertThat, hsize, gt_iff_lt, hlt, decide_true, Bool.and_true, if_true,
    bind, Except.bind]
  by_cases hone : xs.length = 1
  · -- the only node
    obtain ⟨x, rfl⟩ := List.length_eq_one_iff.mp hone
    obtain ⟨p, rfl⟩ := List.length_eq_one_iff.mp (hlength.trans hone)
    obtain rfl : index = 0 := by simpa using hlt
    obtain ⟨n, s', hload, rfl, hfree, hrep⟩ := freeOnly h
    simp only [List.length_singleton, if_true, hload, hfree]
    exact ⟨s', [], rfl, hrep⟩
  rw [if_neg hone]
  by_cases hzero : index = 0
  · -- the head
    subst hzero
    obtain ⟨x, y, vs, rfl⟩ := exists_cons_cons (show 1 < xs.length by omega)
    obtain ⟨p, q, qs, rfl⟩ := exists_cons_cons (show 1 < nodes.length by omega)
    obtain ⟨n, heap, hhead, hload, rfl, hfree, hrep⟩ := takeHead h
    simp only [if_true, hhead, hload, hfree]
    exact ⟨_, _, rfl, hsize ▸ hrep⟩
  · -- a node behind another one
    obtain ⟨index, rfl⟩ := Nat.exists_eq_add_one.mpr (Nat.pos_of_ne_zero hzero)
    obtain ⟨ps, p, rest, us, x, rest', rfl, rfl, hps, hus⟩ :=
      h.chain.split (i := index) (by omega)
    have hlt' := hlt
    simp only [List.length_append, List.length_cons] at hlength hlt'
    obtain ⟨q, qs, rfl⟩ := List.exists_cons_of_length_pos (show 0 < rest.length by omega)
    obtain ⟨y, vs, rfl⟩ := List.exists_cons_of_length_pos (show 0 < rest'.length by omega)
    have hlength' : ps.length = us.length := by omega
    obtain ⟨v, hv, -, hvnext⟩ := h.chain.cell_append hlength'
    obtain ⟨n, heap, heap', hload, rfl, -, hset, hfree, hrep⟩ := takeBehind h hlength'
    have hwalk := walk_chain h.chain hlength'
    have hlast : index + 1 = (us ++ x :: n.data :: vs).length - 1 ↔ qs = [] := by
      simp only [List.length_append, List.length_cons] at hlength ⊢
      rw [← List.length_eq_zero_iff]
      omega
    have hfoot : qs = [] → (some q == s.list.foot) = true := fun hqs =>
      beq_iff_eq.mpr ((foot_iff h.move).mpr hqs)
    have hdata : (us ++ x :: n.data :: vs)[index + 1] = n.data := by
      simp [← hus]
    have herase : (us ++ x :: n.data :: vs).eraseIdx (index + 1) = us ++ x :: vs := by
      rw [List.eraseIdx_append_of_length_le (by omega), ← hus, Nat.add_sub_cancel_left]
      rfl
    rw [hps] at hwalk
    rw [if_neg hzero]
    simp only [Nat.add_sub_cancel, hwalk, getNode_ok hv, hvnext, List.head?_cons, hlast, hload, hset,
      hfree, herase]
    refine ⟨_, ps ++ p :: qs, ?_, hsize ▸ hrep⟩
    rw [hdata]
    by_cases hqs : qs = []
    · simp only [if_pos hqs, if_pos (hfoot hqs)]
    · simp only [if_neg hqs]

variable [DecidableEq α]

/-- INTERNAL: the loop at a node with the data that is looked for.
SOURCE: linked-list.c:399-435 -/
theorem removeFromLoop_found {d : α} (fuel : ℕ) (hlength : ps.length = us.length)
    (h : RepresentsList s (ps ++ q :: qs) (us ++ d :: vs)) :
    ∃ s' nodes', removeFromLoop d (fuel + 1) s ps.getLast? (some q) = .ok (true, s') ∧
      RepresentsList s' nodes' (us ++ vs) := by
  have hsize := h.size
  obtain ⟨n, hn, hdata, -⟩ := h.chain.cell_append hlength
  have hrest : qs.length = vs.length := by
    have := h.chain.length_eq
    simp only [List.length_append, List.length_cons] at this
    omega
  simp only [removeFromLoop, getNode_ok hn, bind, Except.bind, if_pos hdata]
  rcases List.eq_nil_or_concat ps with rfl | ⟨ps, p, rfl⟩
  · obtain rfl : us = [] := List.length_eq_zero_iff.mp hlength.symm
    have hhead : s.list.head = some q := h.chain.linked.1
    cases qs with
    | nil =>
      obtain rfl : vs = [] := List.length_eq_zero_iff.mp hrest.symm
      obtain ⟨-, s', -, -, hfree, hrep⟩ := freeOnly h
      rw [if_pos (show s.list.size = 1 from hsize), hfree]
      exact ⟨s', [], rfl, hrep⟩
    | cons r qs =>
      obtain ⟨y, vs, rfl⟩ := List.exists_cons_of_length_eq_add_one hrest.symm
      obtain ⟨n', heap, -, hload, -, hfree, hrep⟩ := takeHead h
      rw [getNode_ok hn, Except.ok.injEq] at hload
      subst hload
      rw [if_neg (by rw [hsize]; simp), if_pos hhead.symm, hfree]
      exact ⟨_, r :: qs, rfl, hrep⟩
  · rcases List.eq_nil_or_concat us with rfl | ⟨us, x, rfl⟩
    · simp at hlength
    simp only [List.concat_eq_append, List.length_append, List.length_singleton,
      Nat.add_right_cancel_iff, List.append_assoc, List.singleton_append] at h hlength hsize ⊢
    obtain ⟨n', heap, heap', hload, -, -, hset, hfree, hrep⟩ := takeBehind h hlength
    rw [getNode_ok hn, Except.ok.injEq] at hload
    subst hload
    have hnothead : some q ≠ s.list.head := by
      rw [h.chain.linked.head?]
      intro hfirst
      have hbefore : q ∈ ps ++ [p] := by
        cases ps with
        | nil => simpa using hfirst
        | cons r ps => simp [Option.some.inj hfirst]
      exact h.move.not_mem_others (List.mem_append_left _ hbefore)
    have hfoot : (some q = s.list.foot) = (qs = []) := propext (foot_iff h.move)
    have hmany : s.list.size ≠ 1 := by
      rw [hsize]
      simp only [List.length_cons]
      omega
    rw [if_neg hmany, if_neg hnothead, List.getLast?_concat]
    simp only [hset, hfree, hfoot]
    exact ⟨_, ps ++ p :: qs, rfl, hrep⟩

/-- The loop from a node on, when no node before it has the data that is looked for.
SOURCE: linked-list.c:395-442 -/
theorem removeFromLoop_spec {d : α} {fuel : ℕ} (h : RepresentsList s (ps ++ qs) (us ++ vs))
    (hlength : ps.length = us.length) (hnot : d ∉ us) (hfuel : qs.length ≤ fuel) :
    ∃ s' nodes', removeFromLoop d fuel s ps.getLast? qs.head? = .ok (decide (d ∈ vs), s') ∧
      RepresentsList s' nodes' (us ++ vs.erase d) := by
  have hrest : qs.length = vs.length := by
    have := h.chain.length_eq
    simp only [List.length_append] at this
    omega
  induction qs generalizing ps us vs fuel with
  | nil =>
    obtain rfl : vs = [] := List.length_eq_zero_iff.mp hrest.symm
    refine ⟨s, ps ++ [], ?_, h⟩
    cases fuel <;> simp [removeFromLoop]
  | cons q qs ih =>
    obtain ⟨y, vs, rfl⟩ := List.exists_cons_of_length_eq_add_one hrest.symm
    obtain ⟨fuel, rfl⟩ := Nat.exists_eq_add_one.mpr (Nat.lt_of_lt_of_le (Nat.succ_pos _) hfuel)
    by_cases hyd : y = d
    · subst hyd
      obtain ⟨s', nodes', hloop, hrep⟩ := removeFromLoop_found fuel hlength h
      refine ⟨s', nodes', ?_, ?_⟩
      · rw [List.head?_cons, hloop]
        simp
      · rw [List.erase_cons_head]
        exact hrep
    · obtain ⟨n, hn, rfl, hnext⟩ := h.chain.cell_append hlength
      have hstep : removeFromLoop d (fuel + 1) s ps.getLast? (some q) =
          removeFromLoop d fuel s (some q) qs.head? := by
        simp only [removeFromLoop, getNode_ok hn, bind, Except.bind, if_neg hyd, hnext]
      obtain ⟨s', nodes', hloop, hrep⟩ := ih h.move (by simp [hlength])
        (by simp [hnot, Ne.symm hyd]) (Nat.le_of_succ_le_succ hfuel) (by simpa using hrest)
      refine ⟨s', nodes', ?_, ?_⟩
      · rw [List.getLast?_concat] at hloop
        rw [List.head?_cons, hstep, hloop]
        simp [Ne.symm hyd]
      · rw [List.erase_cons_tail (by simpa using hyd)]
        simpa using hrep

/-- SOURCE: linked-list.c:382-444 -/
theorem removefromlinkedlist_spec {nodes : List ℕ} {xs : List α} (d : α)
    (h : RepresentsList s nodes xs) :
    ∃ s' nodes', removefromlinkedlist d s = .ok (decide (d ∈ xs), s') ∧
      RepresentsList s' nodes' (xs.erase d) := by
  have hfuel : nodes.length ≤ s.heap.fresh + 1 := Nat.le_succ_of_le h.chain.length_le
  have hwhole : RepresentsList s ([] ++ nodes) ([] ++ xs) := h
  obtain ⟨s', nodes', hloop, hrep⟩ :=
    removeFromLoop_spec hwhole rfl (List.not_mem_nil : d ∉ []) hfuel
  refine ⟨s', nodes', ?_, hrep⟩
  unfold removefromlinkedlist
  simp only [h.consistent, assertThat, if_true, bind, Except.bind]
  rw [h.chain.linked.head?]
  exact hloop

end Removal

/-! ## Asking -/

section Questions

variable {α : Type} {s : ListState α} {nodes : List ℕ} {xs : List α}

/-- SOURCE: linked-list.c:159-180 -/
theorem getatlinkedlist_spec (h : RepresentsList s nodes xs) {index : ℕ} (hlt : index < xs.length) :
    getatlinkedlist s index = .ok xs[index] := by
  have hsize := h.size_eq
  obtain ⟨hhead, -⟩ := h.null_iff
  obtain ⟨ps, p, qs, us, x, vs, rfl, rfl, hps, hus⟩ := h.chain.split hlt
  have hlength : ps.length = us.length := by omega
  obtain ⟨v, hv, rfl, -⟩ := h.chain.cell_append hlength
  have hsome : s.list.head.isSome = true := by
    rw [Option.isSome_iff_ne_none]
    intro hnone
    have := hhead.mp hnone
    omega
  have hwalk := walk_chain h.chain hlength
  rw [hps] at hwalk
  unfold getatlinkedlist
  simp only [hsome, hsize, gt_iff_lt, hlt, decide_true, Bool.and_true, assertThat, if_true, bind,
    Except.bind, hwalk, getNode_ok hv]
  simp [← hus]

/-- INTERNAL: the array is filled from the front.
SOURCE: linked-list.c:487-494 -/
theorem toarrayLoop_spec {heap : Heap (LinkedListNode α)} {head : Option ℕ} {fuel : ℕ}
    (h : Chain LinkedListNode.next LinkedListNode.data heap head nodes xs)
    (hfuel : nodes.length ≤ fuel) (filled : List (Option α)) :
    toarrayLoop heap fuel filled.length head (filled ++ List.replicate xs.length none) =
      .ok (filled ++ xs.map some) := by
  induction nodes generalizing head xs fuel filled with
  | nil =>
    obtain ⟨rfl, rfl⟩ := chain_nil.mp h
    cases fuel <;> rfl
  | cons p nodes ih =>
    obtain ⟨x, xs, rfl⟩ := List.exists_cons_of_length_eq_add_one h.length_eq.symm
    obtain ⟨fuel, rfl⟩ := Nat.exists_eq_add_one.mpr (Nat.lt_of_lt_of_le (Nat.succ_pos _) hfuel)
    obtain ⟨n, rfl, hn, rfl, hrest⟩ := chain_cons.mp h
    have hnext := ih hrest (by simpa using hfuel) (filled ++ [some n.data])
    have hset : (filled ++ List.replicate (n.data :: xs).length none).set filled.length
        (some n.data) = filled ++ [some n.data] ++ List.replicate xs.length none := by
      rw [List.set_append_right _ _ (Nat.le_refl _), Nat.sub_self, List.append_assoc]
      rfl
    rw [List.length_append, List.length_singleton] at hnext
    simp only [toarrayLoop, getNode_ok hn, bind, Except.bind]
    rw [if_pos (by simp), hset, hnext]
    simp

/-- SOURCE: linked-list.c:472-497 -/
theorem toarraylinkedlist_spec (h : RepresentsList s nodes xs) :
    toarraylinkedlist s = .ok (xs.map some) := by
  unfold toarraylinkedlist
  rw [h.size_eq]
  exact toarrayLoop_spec h.chain (Nat.le_succ_of_le h.chain.length_le) []

variable [DecidableEq α]

/-- INTERNAL: the position is counted from the front.
SOURCE: linked-list.c:454-469 -/
theorem indexofLoop_spec {heap : Heap (LinkedListNode α)} {head : Option ℕ} {fuel : ℕ} (d : α)
    (h : Chain LinkedListNode.next LinkedListNode.data heap head nodes xs)
    (hfuel : nodes.length ≤ fuel) (i : ℤ) :
    indexofLoop heap d fuel i head = .ok (if d ∈ xs then i + xs.idxOf d else -1) := by
  induction nodes generalizing head xs fuel i with
  | nil =>
    obtain ⟨rfl, rfl⟩ := chain_nil.mp h
    cases fuel <;> rfl
  | cons p nodes ih =>
    obtain ⟨x, xs, rfl⟩ := List.exists_cons_of_length_eq_add_one h.length_eq.symm
    obtain ⟨fuel, rfl⟩ := Nat.exists_eq_add_one.mpr (Nat.lt_of_lt_of_le (Nat.succ_pos _) hfuel)
    obtain ⟨n, rfl, hn, rfl, hrest⟩ := chain_cons.mp h
    simp only [indexofLoop, getNode_ok hn, bind, Except.bind]
    by_cases hd : n.data = d
    · rw [if_pos hd, hd, if_pos (by simp), List.idxOf_cons_self]
      simp
    · rw [if_neg hd, ih hrest (by simpa using hfuel), List.idxOf_cons_ne _ hd]
      simp only [List.mem_cons, Ne.symm hd, false_or]
      split_ifs
      · congr 1
        push_cast
        ring
      · rfl

/-- SOURCE: linked-list.c:446-470 -/
theorem indexoflinkedlist_spec (d : α) (h : RepresentsList s nodes xs) :
    indexoflinkedlist d s = .ok (if d ∈ xs then (xs.idxOf d : ℤ) else -1) := by
  unfold indexoflinkedlist
  rw [indexofLoop_spec d h.chain (Nat.le_succ_of_le h.chain.length_le), zero_add]

end Questions

/-! ## Sequences of calls -/

section Calls

variable {α : Type} [DecidableEq α]

/-- What a call means for the data: what it returns and what becomes of them; `none` when its
position is out of range. -/
def ListCall.meaning (xs : List α) : ListCall α → Option (ListResult α × List α)
  | .append data => some (.void, xs ++ [data])
  | .add index data => if index ≤ xs.length then some (.void, xs.insertIdx index data) else none
  | .removeAt index => xs[index]?.map fun data => (.data data, xs.eraseIdx index)
  | .removeFrom data => some (.flag (data ∈ xs), xs.erase data)

/-- What calls one after the other mean for the data. -/
def meaningOfCalls : List (ListCall α) → List α → Option (List (ListResult α) × List α)
  | [], xs => some ([], xs)
  | call :: calls, xs => do
    let (result, xs) ← ListCall.meaning xs call
    let (results, xs) ← meaningOfCalls calls xs
    some (result :: results, xs)

/-- The list stands for these data: its representation is sound, and what is asked of it is
what is asked of them. -/
structure StandsFor (s : ListState α) (xs : List α) : Prop where
  nodes : ∃ nodes, RepresentsList s nodes xs ∧ nodes.Nodup ∧ nodes.length = s.list.size
  null : (s.list.head = none ↔ s.list.size = 0) ∧ (s.list.foot = none ↔ s.list.size = 0)
  getat : ∀ (index : ℕ) (h : index < xs.length), getatlinkedlist s index = .ok xs[index]
  indexof : ∀ data, indexoflinkedlist data s = .ok (if data ∈ xs then (xs.idxOf data : ℤ) else -1)
  toarray : toarraylinkedlist s = .ok (xs.map some)

/-- INTERNAL: a well-formed list stands for the data its nodes carry. -/
theorem standsFor {s : ListState α} {nodes : List ℕ} {xs : List α}
    (h : RepresentsList s nodes xs) : StandsFor s xs where
  nodes := ⟨nodes, h, h.nodup, h.size.symm⟩
  null := h.null_iff
  getat _ hlt := getatlinkedlist_spec h hlt
  indexof data := indexoflinkedlist_spec data h
  toarray := toarraylinkedlist_spec h

/-- One call does to the nodes what it means for the data.
SOURCE: linked-list.c:182-279, 311-444 -/
theorem perform_spec (malloc : Allocator (LinkedListNode α)) {s : ListState α} {nodes : List ℕ}
    {xs ys : List α} {call : ListCall α} {result : ListResult α} (h : RepresentsList s nodes xs)
    (hmeaning : ListCall.meaning xs call = some (result, ys)) :
    ∃ s' nodes', call.perform malloc s = .ok (result, s') ∧ RepresentsList s' nodes' ys := by
  cases call with
  | append data =>
    cases hmeaning
    obtain ⟨s', nodes', hcall, hrep⟩ := appendlinkedlist_spec malloc data h
    exact ⟨s', nodes', by simp only [ListCall.perform, hcall, bind, Except.bind], hrep⟩
  | add index data =>
    simp only [ListCall.meaning] at hmeaning
    split_ifs at hmeaning with hle
    cases hmeaning
    obtain ⟨s', nodes', hcall, hrep⟩ := addlinkedlist_spec malloc data h hle
    exact ⟨s', nodes', by simp only [ListCall.perform, hcall, bind, Except.bind], hrep⟩
  | removeAt index =>
    obtain ⟨data, hdata, heq⟩ := Option.map_eq_some_iff.mp hmeaning
    cases heq
    obtain ⟨hlt, rfl⟩ := List.getElem?_eq_some_iff.mp hdata
    obtain ⟨s', nodes', hcall, hrep⟩ := removeatlinkedlist_spec h hlt
    exact ⟨s', nodes', by simp only [ListCall.perform, hcall, bind, Except.bind], hrep⟩
  | removeFrom data =>
    cases hmeaning
    obtain ⟨s', nodes', hcall, hrep⟩ := removefromlinkedlist_spec data h
    exact ⟨s', nodes', by simp only [ListCall.perform, hcall, bind, Except.bind], hrep⟩

/-- Calls one after the other, from any well-formed list on. -/
theorem performCalls_spec (malloc : Allocator (LinkedListNode α)) {calls : List (ListCall α)}
    {s : ListState α} {nodes : List ℕ} {xs ys : List α} {results : List (ListResult α)}
    (h : RepresentsList s nodes xs) (hmeaning : meaningOfCalls calls xs = some (results, ys)) :
    ∃ s' nodes', performCalls malloc calls s = .ok (results, s') ∧ RepresentsList s' nodes' ys := by
  induction calls generalizing s nodes xs results with
  | nil =>
    cases hmeaning
    exact ⟨s, nodes, rfl, h⟩
  | cons call calls ih =>
    unfold meaningOfCalls at hmeaning
    obtain ⟨⟨result, zs⟩, hcall, hrest⟩ := Option.bind_eq_some_iff.mp hmeaning
    obtain ⟨⟨results', ws⟩, hcalls, heq⟩ := Option.bind_eq_some_iff.mp hrest
    cases heq
    obtain ⟨s₁, nodes₁, hperform, hrep⟩ := perform_spec malloc h hcall
    obtain ⟨s₂, nodes₂, hperforms, hrep'⟩ := ih hrep hcalls
    exact ⟨s₂, nodes₂, by simp only [performCalls, hperform, hperforms, bind, Except.bind], hrep'⟩

/-- **The linked list refines lists.** For every allocator, every heap and every finite
sequence of calls from `newlinkedlist` on whose positions are in range: no assert fails and
nothing else goes wrong, every call returns what the corresponding operation on lists returns,
and the list that is reached stands for what these operations make of the empty list. `malloc` has a
pointer to give for zero bytes too, and the lists are no longer than an `int` can count.
SOURCE: linked-list.c:112-134, 159-279, 311-497 -/
theorem linked_list_refines (malloc : Allocator (LinkedListNode α)) (heap : Heap (LinkedListNode α))
    (calls : List (ListCall α)) (results : List (ListResult α)) (xs : List α)
    (hmeaning : meaningOfCalls calls [] = some (results, xs)) :
    ∃ s, performCalls malloc calls ⟨heap, newlinkedlist⟩ = .ok (results, s) ∧ StandsFor s xs := by
  obtain ⟨s, nodes, hcalls, hrep⟩ := performCalls_spec malloc (representsList_new heap) hmeaning
  exact ⟨s, hcalls, standsFor hrep⟩

end Calls

/-- The head, a node in the middle and the foot come and go.
SOURCE: linked-list.c:182-279, 311-444 -/
theorem linked_list_refines_nine_calls :
    ∃ s, performCalls (Allocator.next (LinkedListNode ℤ))
        [.append 11, .append 22, .add 0 5, .add 2 7, .add 4 11, .removeAt 2, .removeFrom 11,
          .removeFrom 100, .removeAt 2] ⟨Heap.empty, newlinkedlist⟩ =
      .ok ([.void, .void, .void, .void, .void, .data 7, .flag true, .flag false, .data 11], s) ∧
      StandsFor s [5, 22] :=
  linked_list_refines _ _ _ _ _ (by decide)

end Comp30023.Analysis
