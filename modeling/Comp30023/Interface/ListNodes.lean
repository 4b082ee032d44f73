import Comp30023.Model.LinkedList
import Mathlib.Data.List.Basic

/-!
# What a linked list represents

`RepresentsList s nodes xs`: the links lead from the head of the list through these nodes to a
null pointer, the nodes carry these data, the foot is the last of them and the size is their
number. Two rules say when this is kept, for a node that is hung behind another one and for a
node that is taken out behind another one; both only ask for the cells that the next heap
has, not for how it came about.
-/

set_option autoImplicit false

namespace Comp30023.Interface

open Comp30023.Library Comp30023.Model

/-- The list leads through these nodes, which carry these data. -/
structure RepresentsList {α : Type} (s : ListState α) (nodes : List ℕ) (xs : List α) : Prop where
  chain : Chain LinkedListNode.next LinkedListNode.data s.heap s.list.head nodes xs
  foot : s.list.foot = nodes.getLast?
  size : s.list.size = nodes.length

section Nodes

variable {α : Type} {s : ListState α} {nodes ps qs : List ℕ} {xs us vs : List α}

/-- SOURCE: linked-list.c:121-134 -/
theorem representsList_new (heap : Heap (LinkedListNode α)) :
    RepresentsList ⟨heap, newlinkedlist⟩ [] [] :=
  ⟨chain_nil.mpr ⟨rfl, rfl⟩, rfl, rfl⟩

namespace RepresentsList

theorem size_eq (h : RepresentsList s nodes xs) : s.list.size = xs.length := by
  rw [h.size, h.chain.length_eq]

theorem nodup (h : RepresentsList s nodes xs) : nodes.Nodup := h.chain.linked.nodup

/-- INTERNAL: the links come to a node once only. -/
theorem not_mem_others {p : ℕ} (h : RepresentsList s (ps ++ p :: qs) xs) : p ∉ ps ++ qs :=
  (List.nodup_cons.mp (List.nodup_middle.mp h.nodup)).1

/-- INTERNAL: a cell that is not in use is no node of the list. -/
theorem not_mem_of_dead {q : ℕ} (h : RepresentsList s nodes xs) (hdead : s.heap.cell q = none) :
    q ∉ nodes := by
  intro hq
  obtain ⟨v, hv⟩ := h.chain.live hq
  rw [hdead] at hv
  cases hv

/-- INTERNAL: one node further. -/
theorem move {p : ℕ} {x : α} (h : RepresentsList s (ps ++ p :: qs) (us ++ x :: vs)) :
    RepresentsList s ((ps ++ [p]) ++ qs) ((us ++ [x]) ++ vs) := by
  rwa [List.append_assoc, List.append_assoc]

/-- INTERNAL: the pointers are null exactly in the empty list. -/
theorem null_iff (h : RepresentsList s nodes xs) :
    (s.list.head = none ↔ s.list.size = 0) ∧ (s.list.foot = none ↔ s.list.size = 0) := by
  constructor
  · rw [h.chain.linked.head?, h.size, List.head?_eq_none_iff, List.length_eq_zero_iff]
  · rw [h.foot, h.size, List.getLast?_eq_none_iff, List.length_eq_zero_iff]

/-- SOURCE: linked-list.c:112-119 -/
theorem consistent (h : RepresentsList s nodes xs) : isconsistentlinkedlist s.list = true := by
  obtain ⟨hhead, hfoot⟩ := h.null_iff
  unfold isconsistentlinkedlist
  by_cases hempty : s.list.size = 0
  · simp [hhead.mpr hempty, hfoot.mpr hempty, hempty]
  · have hhead' := Option.isNone_eq_false_iff.mpr (Option.isSome_iff_ne_none.mpr
      fun hnone => hempty (hhead.mp hnone))
    have hfoot' := Option.isNone_eq_false_iff.mpr (Option.isSome_iff_ne_none.mpr
      fun hnone => hempty (hfoot.mp hnone))
    simp [hhead', hfoot', hempty]

/-- INTERNAL: a list that is not empty has a foot, which carries the last datum. -/
theorem exists_foot (h : RepresentsList s nodes xs) (hne : xs ≠ []) :
    ∃ ps p us x, nodes = ps ++ [p] ∧ xs = us ++ [x] ∧ ps.length = us.length ∧
      s.list.foot = some p := by
  have hlength := h.chain.length_eq
  rcases List.eq_nil_or_concat xs with rfl | ⟨us, x, rfl⟩
  · exact absurd rfl hne
  · rcases List.eq_nil_or_concat nodes with rfl | ⟨ps, p, rfl⟩
    · simp at hlength
    · have hfoot := h.foot
      simp only [List.concat_eq_append, List.length_append, List.length_singleton,
        Nat.add_right_cancel_iff, List.getLast?_concat] at hlength hfoot ⊢
      exact ⟨ps, p, us, x, rfl, rfl, hlength, hfoot⟩

/-- A node is hung behind another one. -/
theorem insert {heap : Heap (LinkedListNode α)} {list : LinkedList} {p q : ℕ} {x d : α}
    (h : RepresentsList s (ps ++ p :: qs) (us ++ x :: vs))
    (hlength : ps.length = us.length) (hdead : s.heap.cell q = none)
    (hp : heap.cell p = some ⟨x, some q⟩) (hq : heap.cell q = some ⟨d, qs.head?⟩)
    (hframe : ∀ r, r ≠ p → r ≠ q → heap.cell r = s.heap.cell r)
    (hhead : list.head = s.list.head) (hsize : list.size = s.list.size + 1)
    (hfoot : list.foot = if qs = [] then some q else s.list.foot) :
    RepresentsList ⟨heap, list⟩ (ps ++ p :: q :: qs) (us ++ x :: d :: vs) := by
  have hoff : ∀ r ∈ ps ++ qs, r ≠ p ∧ r ≠ q := by
    intro r hr
    refine ⟨?_, ?_⟩
    · rintro rfl
      exact h.not_mem_others hr
    · rintro rfl
      exact h.not_mem_of_dead hdead (by grind)
  refine ⟨?_, ?_, ?_⟩
  · obtain ⟨v, hv, -, hnext⟩ := h.chain.cell_append hlength
    rw [hhead]
    refine h.chain.insert hlength (fun r hr => hframe r (hoff r hr).1 (hoff r hr).2) hp rfl rfl hq ?_
    rw [Heap.link_of_cell hv, hnext]
  · rw [hfoot, h.foot]
    cases qs with
    | nil => simp
    | cons r qs => simp [List.getLast?_append]
  · rw [hsize, h.size]
    simp only [List.length_append, List.length_cons]
    omega

/-- A node is taken out behind another one. -/
theorem delete {heap : Heap (LinkedListNode α)} {list : LinkedList} {p q : ℕ} {x y : α}
    (h : RepresentsList s (ps ++ p :: q :: qs) (us ++ x :: y :: vs))
    (hlength : ps.length = us.length) (hp : heap.cell p = some ⟨x, qs.head?⟩)
    (hframe : ∀ r, r ≠ p → r ≠ q → heap.cell r = s.heap.cell r)
    (hhead : list.head = s.list.head) (hsize : list.size = s.list.size - 1)
    (hfoot : list.foot = if qs = [] then some p else s.list.foot) :
    RepresentsList ⟨heap, list⟩ (ps ++ p :: qs) (us ++ x :: vs) := by
  have hoff : ∀ r ∈ ps ++ qs, r ≠ p ∧ r ≠ q := by
    intro r hr
    refine ⟨?_, ?_⟩
    · rintro rfl
      exact h.not_mem_others (by grind)
    · rintro rfl
      exact h.move.not_mem_others (by grind)
  refine ⟨?_, ?_, ?_⟩
  · obtain ⟨v, hv, -, hnext⟩ := h.move.chain.cell_append (by simp [hlength])
    rw [hhead]
    refine h.chain.delete hlength (fun r hr => hframe r (hoff r hr).1 (hoff r hr).2) hp ?_
    rw [Heap.link_of_cell hv, hnext]
  · rw [hfoot, h.foot]
    cases qs with
    | nil => simp
    | cons r qs => simp [List.getLast?_append]
  · rw [hsize, h.size]
    simp only [List.length_append, List.length_cons]
    omega

end RepresentsList

/-! ## Following and changing links -/

theorem getNode_ok {heap : Heap (LinkedListNode α)} {p : ℕ} {n : LinkedListNode α}
    (h : heap.cell p = some n) : getNode heap (some p) = .ok n :=
  Heap.load_ok h _

theorem setNext_ok {heap : Heap (LinkedListNode α)} {p : ℕ} {n : LinkedListNode α}
    (h : heap.cell p = some n) (next : Option ℕ) :
    setNext heap (some p) next = .ok (heap.set p { n with next := next }) :=
  Heap.modify_ok h _ _

theorem freeNode_ok {heap : Heap (LinkedListNode α)} {p : ℕ} {n : LinkedListNode α}
    (h : heap.cell p = some n) : freeNode heap (some p) = .ok (heap.erase p) :=
  Heap.free_ok h _

/-- The walk leads to the node at a position.
SOURCE: linked-list.c:171-177, 265-270, 353-358 -/
theorem walk_chain {heap : Heap (LinkedListNode α)} {head : Option ℕ} {p : ℕ} {x : α}
    (h : Chain LinkedListNode.next LinkedListNode.data heap head (ps ++ p :: qs) (us ++ x :: vs))
    (hlength : ps.length = us.length) : walk heap ps.length head = .ok (some p) := by
  induction ps generalizing head us with
  | nil =>
    rw [h.linked.1]
    rfl
  | cons q ps ih =>
    cases us with
    | nil => simp at hlength
    | cons u us =>
      obtain ⟨v, rfl, hv, -, hrest⟩ := chain_cons.mp h
      simp only [List.length_cons, walk, Option.isSome_some, assertThat, if_true, bind, Except.bind,
        getNode_ok hv]
      exact ih hrest (by simpa using hlength)

end Nodes

end Comp30023.Interface
