import Comp30023.Library.Heap

/-!
# Heaps that are one chain

`Spine` says that the live cells of a heap are the nodes of one chain: nothing has leaked, and
nothing of the chain was given back. Its rules say what becomes of the spine when a node is hung
in or taken out and given back, or when a cell gets other data. `Heap.search` is the loop that
looks for a node from the head on with the node before it in tow, `Heap.foldLinks` the one that
goes through all nodes, and `Heap.freeFrom` the one that gives a whole chain back.
-/

set_option autoImplicit false

namespace Comp30023.Library

variable {β γ ε : Type}

/-! ## Loops -/

namespace Heap

/-- `while (curr != NULL) { if (stop) break; prev = curr; curr = curr->next; }`, with at most so
many passes. -/
def search (invalid diverged : ε) (next : β → Option ℕ) (stop : β → Bool) (h : Heap β) :
    ℕ → Option ℕ → Option ℕ → Except ε (Option ℕ × Option ℕ)
  | 0, _, _ => .error diverged
  | _ + 1, prev, none => .ok (prev, none)
  | fuel + 1, prev, some p => do
    let v ← h.load invalid (some p)
    if stop v then .ok (prev, some p) else search invalid diverged next stop h fuel (some p) (next v)

/-- `while (curr != NULL) { a = f(a, curr); curr = curr->next; }`, with at most so many passes. -/
def foldLinks {α : Type} (invalid diverged : ε) (next : β → Option ℕ) (f : α → β → α) (h : Heap β) :
    ℕ → α → Option ℕ → Except ε α
  | 0, _, _ => .error diverged
  | _ + 1, a, none => .ok a
  | fuel + 1, a, some p => do
    let v ← h.load invalid (some p)
    foldLinks invalid diverged next f h fuel (f a v) (next v)

end Heap

/-! ## Spines -/

/-- The chain from `head` visits these nodes with these data, and no other cell is live. -/
structure Spine (next : β → Option ℕ) (data : β → γ) (h : Heap β) (head : Option ℕ)
    (nodes : List ℕ) (xs : List γ) : Prop where
  chain : Chain next data h head nodes xs
  live : ∀ p, h.cell p ≠ none → p ∈ nodes

section Spines

variable {next : β → Option ℕ} {data : β → γ} {h : Heap β} {head : Option ℕ} {nodes ps qs : List ℕ}
  {us vs xs : List γ} {p q : ℕ} {x y : γ} {u v w : β}

/-- A spine does not depend on how its heap came about. -/
theorem Spine.congr {h' : Heap β} (hs : Spine next data h head nodes xs)
    (hcells : ∀ p, h'.cell p = h.cell p) : Spine next data h' head nodes xs := by
  refine ⟨hs.chain.congr fun p _ => hcells p, fun p hp => hs.live p ?_⟩
  rwa [← hcells p]

/-- INTERNAL: one node further. -/
theorem Spine.move (hs : Spine next data h head (ps ++ p :: qs) (us ++ x :: vs)) :
    Spine next data h head ((ps ++ [p]) ++ qs) ((us ++ [x]) ++ vs) := by
  rwa [List.append_assoc, List.append_assoc]

theorem Spine.nodup (hs : Spine next data h head nodes xs) : nodes.Nodup := hs.chain.linked.nodup

/-- INTERNAL: the node at a position, what it carries and where it leads to. -/
theorem Spine.cell (hs : Spine next data h head (ps ++ p :: qs) (us ++ x :: vs))
    (hlength : ps.length = us.length) :
    ∃ v, h.cell p = some v ∧ data v = x ∧ next v = qs.head? :=
  hs.chain.cell_append hlength

/-- INTERNAL: a node is none of the others. -/
theorem Spine.ne_of_mem (hs : Spine next data h head (ps ++ p :: qs) xs) {r : ℕ}
    (hr : r ∈ ps ++ qs) : r ≠ p := by
  rintro rfl
  exact (List.nodup_cons.mp (List.nodup_middle.mp hs.nodup)).1 hr

/-- A node behind another one is taken out and given back; the one before it may get other
data. -/
theorem Spine.takeBehind (hs : Spine next data h head (ps ++ p :: q :: qs) (us ++ x :: y :: vs))
    (hlength : ps.length = us.length) (hlink : next u = qs.head?) :
    Spine next data ((h.set p u).erase q) head (ps ++ p :: qs) (us ++ data u :: vs) := by
  have hnodup := hs.nodup
  have hpq : p ≠ q := by
    rintro rfl
    simp [List.nodup_append] at hnodup
  have hq : ∀ r ∈ ps ++ qs, r ≠ q := by
    rintro r hr rfl
    simp only [List.nodup_append, List.nodup_cons, List.mem_append, List.mem_cons] at hnodup hr
    grind
  have hcell : h.link next q = qs.head? := by
    have hs' : Spine next data h head ((ps ++ [p]) ++ q :: qs) ((us ++ [x]) ++ y :: vs) := by
      simpa using hs
    obtain ⟨w, hw, -, hnext⟩ := hs'.cell (by simp [hlength])
    rw [Heap.link_of_cell hw, hnext]
  constructor
  · refine hs.chain.delete hlength (fun r hr => ?_) ?_ (by rw [hlink, hcell])
    · have hrp : r ≠ p := hs.ne_of_mem (by simp at hr ⊢; tauto)
      rw [Heap.cell_erase_of_ne _ (hq r hr), Heap.cell_set_of_ne _ _ hrp]
    · rw [Heap.cell_erase_of_ne _ hpq, Heap.cell_set_self]
  · intro r hr
    by_cases hrq : r = q
    · rw [hrq, Heap.cell_erase_self] at hr
      exact absurd rfl hr
    rw [Heap.cell_erase_of_ne _ hrq] at hr
    by_cases hrp : r = p
    · rw [hrp]
      simp
    rw [Heap.cell_set_of_ne _ _ hrp] at hr
    have hmem := hs.live r hr
    simp only [List.mem_append, List.mem_cons] at hmem ⊢
    tauto

/-- A node gets other data. -/
theorem Spine.store (hs : Spine next data h head (ps ++ p :: qs) (us ++ x :: vs))
    (hlength : ps.length = us.length) (hlink : next u = qs.head?) :
    Spine next data (h.set p u) head (ps ++ p :: qs) (us ++ data u :: vs) := by
  obtain ⟨hbefore, -, hafter⟩ := hs.chain.carried_append hlength
  obtain ⟨v, hv, -, hnext⟩ := hs.cell hlength
  have hframe : ∀ r, r ≠ p → (h.set p u).cell r = h.cell r :=
    fun r hr => Heap.cell_set_of_ne _ _ hr
  refine ⟨⟨?_, ?_⟩, fun r hr => ?_⟩
  · refine hs.chain.linked.congr fun r _ => ?_
    by_cases hrp : r = p
    · rw [hrp, Heap.link_of_cell (Heap.cell_set_self _ _ _), Heap.link_of_cell hv, hlink, hnext]
    · exact Heap.link_congr (hframe r hrp) next
  · rw [List.map_append, List.map_cons, List.map_append, List.map_cons,
      Heap.datum_of_cell (Heap.cell_set_self _ _ _), ← hbefore, ← hafter]
    congr 1
    · exact List.map_congr_left fun r hr =>
        Heap.datum_congr (hframe r (hs.ne_of_mem (List.mem_append_left _ hr))) data
    · congr 1
      exact List.map_congr_left fun r hr =>
        Heap.datum_congr (hframe r (hs.ne_of_mem (List.mem_append_right _ hr))) data
  · by_cases hrp : r = p
    · rw [hrp]
      simp
    · rw [hframe r hrp] at hr
      exact hs.live r hr

/-- INTERNAL: the last node before a position. -/
theorem getLast?_cons_or (p : ℕ) (ps : List ℕ) (prev : Option ℕ) :
    (p :: ps).getLast?.or prev = ps.getLast?.or (some p) := by
  rw [List.getLast?_cons]
  cases ps.getLast? <;> rfl

/-- The search stops at the first node whose datum it looks for, or at the end. -/
theorem search_chain (invalid diverged : ε) (stop : β → Bool) (wanted : γ → Bool)
    (hstop : ∀ v, stop v = wanted (data v)) {fuel : ℕ} (prev : Option ℕ)
    (hc : Chain next data h head nodes xs) (hfuel : nodes.length < fuel) :
    (∀ z ∈ xs, wanted z = false) ∧
        h.search invalid diverged next stop fuel prev head = .ok (nodes.getLast?.or prev, none) ∨
      ∃ ps p qs us z vs, nodes = ps ++ p :: qs ∧ xs = us ++ z :: vs ∧ ps.length = us.length ∧
        (∀ y ∈ us, wanted y = false) ∧ wanted z = true ∧
        h.search invalid diverged next stop fuel prev head = .ok (ps.getLast?.or prev, some p) := by
  induction nodes generalizing fuel prev head xs with
  | nil =>
    obtain ⟨rfl, rfl⟩ := chain_nil.mp hc
    obtain ⟨fuel, rfl⟩ := Nat.exists_eq_succ_of_ne_zero (Nat.ne_of_gt hfuel)
    exact Or.inl ⟨by simp, rfl⟩
  | cons p nodes ih =>
    obtain ⟨fuel, rfl⟩ := Nat.exists_eq_succ_of_ne_zero (Nat.ne_of_gt (Nat.zero_lt_of_lt hfuel))
    cases xs with
    | nil => simpa using hc.length_eq
    | cons z xs =>
      obtain ⟨v, rfl, hv, rfl, hrest⟩ := chain_cons.mp hc
      have hpass : h.search invalid diverged next stop (fuel + 1) prev (some p) =
          if stop v then .ok (prev, some p)
          else h.search invalid diverged next stop fuel (some p) (next v) := by
        simp only [Heap.search, Heap.load_ok hv, bind, Except.bind]
      rw [hpass]
      by_cases hfound : stop v = true
      · refine Or.inr ⟨[], p, nodes, [], data v, xs, rfl, rfl, rfl, by simp, ?_, ?_⟩
        · rw [← hstop, hfound]
        · rw [if_pos hfound]
          rfl
      · have hnot : wanted (data v) = false := by
          rw [← hstop]
          simpa using hfound
        rw [if_neg hfound]
        rcases ih (some p) hrest (by simpa using hfuel) with
          ⟨hnone, hend⟩ | ⟨ps, q, qs, us, y, vs, rfl, rfl, hlength, hbefore, hy, hsearch⟩
        · refine Or.inl ⟨?_, ?_⟩
          · intro z hz
            rcases List.mem_cons.mp hz with rfl | hz
            · exact hnot
            · exact hnone z hz
          · rw [hend, getLast?_cons_or]
        · refine Or.inr ⟨p :: ps, q, qs, data v :: us, y, vs, rfl, rfl, by simp [hlength], ?_, hy, ?_⟩
          · intro z hz
            rcases List.mem_cons.mp hz with rfl | hz
            · exact hnot
            · exact hbefore z hz
          · rw [hsearch, getLast?_cons_or]

/-- The search from the head on, with as many passes as there can be live cells and one more. -/
theorem search_head (invalid diverged : ε) (stop : β → Bool) (wanted : γ → Bool)
    (hstop : ∀ v, stop v = wanted (data v)) (hc : Chain next data h head nodes xs) :
    (∀ z ∈ xs, wanted z = false) ∧
        h.search invalid diverged next stop (h.fresh + 1) none head = .ok (nodes.getLast?, none) ∨
      ∃ ps p qs us z vs, nodes = ps ++ p :: qs ∧ xs = us ++ z :: vs ∧ ps.length = us.length ∧
        (∀ y ∈ us, wanted y = false) ∧ wanted z = true ∧
        h.search invalid diverged next stop (h.fresh + 1) none head = .ok (ps.getLast?, some p) := by
  simpa only [Option.or_none] using
    search_chain invalid diverged stop wanted hstop none hc (Nat.lt_succ_of_le hc.length_le)

end Spines

end Comp30023.Library
