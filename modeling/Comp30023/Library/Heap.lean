import Comp30023.Library.Links
import Mathlib.Logic.Function.Basic

/-!
# Heaps of cells

A heap is a map from addresses to cells, dead from some address on. Reading and writing go
through pointers, and a null pointer or one to a dead cell is a fault. Which address a new
cell gets is up to an `Allocator`: any address that is dead, also one that was live before.

A cell of a linked structure has a link and carries a datum. `Chain` says that following the
links from a head visits these nodes, and that they carry these data. Its rules say what
becomes of a chain when cells off it change, when a node is put in front, hung in or taken out.
-/

set_option autoImplicit false

namespace Comp30023.Library

/-- Cells at addresses; from `fresh` on all of them are dead. -/
structure Heap (β : Type) where
  cell : ℕ → Option β
  fresh : ℕ
  dead : ∀ p, fresh ≤ p → cell p = none

namespace Heap

variable {β γ ε : Type}

/-- Nothing is allocated. -/
def empty : Heap β := ⟨fun _ => none, 0, fun _ _ => rfl⟩

/-- The cell at `p` gets a value, and is live from now on. -/
def set (h : Heap β) (p : ℕ) (v : β) : Heap β where
  cell := Function.update h.cell p (some v)
  fresh := max h.fresh (p + 1)
  dead q hq := by
    rw [Function.update_of_ne (by omega)]
    exact h.dead q (by omega)

/-- The cell at `p` is dead from now on. -/
def erase (h : Heap β) (p : ℕ) : Heap β where
  cell := Function.update h.cell p none
  fresh := h.fresh
  dead q hq := by
    by_cases hqp : q = p
    · rw [hqp, Function.update_self]
    · rw [Function.update_of_ne hqp]
      exact h.dead q hq

@[simp] theorem cell_set_self (h : Heap β) (p : ℕ) (v : β) : (h.set p v).cell p = some v :=
  Function.update_self ..

@[simp] theorem cell_set_of_ne (h : Heap β) {p q : ℕ} (v : β) (hne : q ≠ p) :
    (h.set p v).cell q = h.cell q :=
  Function.update_of_ne hne ..

@[simp] theorem cell_erase_self (h : Heap β) (p : ℕ) : (h.erase p).cell p = none :=
  Function.update_self ..

@[simp] theorem cell_erase_of_ne (h : Heap β) {p q : ℕ} (hne : q ≠ p) :
    (h.erase p).cell q = h.cell q :=
  Function.update_of_ne hne ..

/-! ## Pointers -/

/-- Reading through a pointer. -/
def load (fault : ε) (h : Heap β) (p : Option ℕ) : Except ε β :=
  match p.bind h.cell with
  | some v => .ok v
  | none => .error fault

/-- Writing through a pointer. -/
def modify (fault : ε) (h : Heap β) (p : Option ℕ) (f : β → β) : Except ε (Heap β) :=
  match p with
  | none => .error fault
  | some p =>
    match h.cell p with
    | some v => .ok (h.set p (f v))
    | none => .error fault

/-- Giving a cell back. -/
def free (fault : ε) (h : Heap β) (p : Option ℕ) : Except ε (Heap β) :=
  match p with
  | none => .error fault
  | some p =>
    match h.cell p with
    | some _ => .ok (h.erase p)
    | none => .error fault

theorem load_ok {h : Heap β} {p : ℕ} {v : β} (hv : h.cell p = some v) (fault : ε) :
    h.load fault (some p) = .ok v := by
  simp [load, hv]

theorem modify_ok {h : Heap β} {p : ℕ} {v : β} (hv : h.cell p = some v) (fault : ε) (f : β → β) :
    h.modify fault (some p) f = .ok (h.set p (f v)) := by
  simp [modify, hv]

theorem free_ok {h : Heap β} {p : ℕ} {v : β} (hv : h.cell p = some v) (fault : ε) :
    h.free fault (some p) = .ok (h.erase p) := by
  simp [free, hv]

/-- Where the link of the cell at `p` leads to. -/
def link (next : β → Option ℕ) (h : Heap β) (p : ℕ) : Option ℕ := (h.cell p).bind next

/-- What the cell at `p` carries. -/
def datum (data : β → γ) (h : Heap β) (p : ℕ) : Option γ := (h.cell p).map data

theorem link_of_cell {h : Heap β} {p : ℕ} {v : β} (hv : h.cell p = some v)
    (next : β → Option ℕ) : h.link next p = next v := by
  simp [link, hv]

theorem datum_of_cell {h : Heap β} {p : ℕ} {v : β} (hv : h.cell p = some v)
    (data : β → γ) : h.datum data p = some (data v) := by
  simp [datum, hv]

theorem link_congr {h h' : Heap β} {p : ℕ} (hp : h'.cell p = h.cell p) (next : β → Option ℕ) :
    h'.link next p = h.link next p := by
  simp [link, hp]

theorem datum_congr {h h' : Heap β} {p : ℕ} (hp : h'.cell p = h.cell p) (data : β → γ) :
    h'.datum data p = h.datum data p := by
  simp [datum, hp]

end Heap

/-- A choice of the address of a new cell: one that is dead. -/
structure Allocator (β : Type) where
  address : Heap β → ℕ
  isDead : ∀ h : Heap β, h.cell (address h) = none

/-- The allocator that never uses an address twice. -/
def Allocator.next (β : Type) : Allocator β := ⟨Heap.fresh, fun h => h.dead _ (Nat.le_refl _)⟩

/-- A new cell, and its address. -/
def Allocator.alloc {β : Type} (a : Allocator β) (h : Heap β) (v : β) : ℕ × Heap β :=
  (a.address h, h.set (a.address h) v)

/-! ## Chains -/

section Chains

variable {β γ : Type} {next : β → Option ℕ} {data : β → γ} {h h' : Heap β} {head : Option ℕ}
  {nodes ps qs : List ℕ} {xs ys : List γ}

/-- Following the links from `head` visits these nodes, and they carry these data. -/
structure Chain (next : β → Option ℕ) (data : β → γ) (h : Heap β) (head : Option ℕ)
    (nodes : List ℕ) (xs : List γ) : Prop where
  linked : Linked (h.link next) head nodes
  carried : nodes.map (h.datum data) = xs.map some

theorem chain_nil : Chain next data h head [] xs ↔ head = none ∧ xs = [] := by
  constructor
  · intro hc
    exact ⟨hc.linked, by simpa using hc.carried.symm⟩
  · rintro ⟨rfl, rfl⟩
    exact ⟨rfl, rfl⟩

/-- The first node of a chain. -/
theorem chain_cons {p : ℕ} {x : γ} :
    Chain next data h head (p :: ps) (x :: xs) ↔
      ∃ v, head = some p ∧ h.cell p = some v ∧ data v = x ∧ Chain next data h (next v) ps xs := by
  constructor
  · rintro ⟨⟨rfl, hlinked⟩, hcarried⟩
    rw [List.map_cons, List.map_cons, List.cons.injEq] at hcarried
    obtain ⟨v, hv, hx⟩ := Option.map_eq_some_iff.mp hcarried.1
    rw [Heap.link_of_cell hv] at hlinked
    exact ⟨v, rfl, hv, hx, hlinked, hcarried.2⟩
  · rintro ⟨v, rfl, hv, rfl, hlinked, hcarried⟩
    refine ⟨⟨rfl, by rw [Heap.link_of_cell hv]; exact hlinked⟩, ?_⟩
    rw [List.map_cons, List.map_cons, hcarried, Heap.datum_of_cell hv]

/-- INTERNAL: a chain has as many nodes as data. -/
theorem Chain.length_eq (hc : Chain next data h head nodes xs) : nodes.length = xs.length := by
  simpa using congrArg List.length hc.carried

/-- INTERNAL: a chain that starts at a node carries something. -/
theorem Chain.exists_cons {p : ℕ} (hc : Chain next data h (some p) nodes xs) :
    ∃ qs x ys, nodes = p :: qs ∧ xs = x :: ys := by
  obtain ⟨qs, rfl⟩ : ∃ qs, nodes = p :: qs := by
    cases nodes with
    | nil => cases hc.linked
    | cons q qs => exact ⟨qs, by rw [Option.some.inj hc.linked.1]⟩
  have hlength := hc.length_eq
  cases xs with
  | nil => simp at hlength
  | cons x ys => exact ⟨qs, x, ys, rfl, rfl⟩

/-- INTERNAL: the nodes of a chain are live. -/
theorem Chain.live (hc : Chain next data h head nodes xs) {p : ℕ} (hp : p ∈ nodes) :
    ∃ v, h.cell p = some v := by
  have hmem : h.datum data p ∈ xs.map some := by
    rw [← hc.carried]
    exact List.mem_map_of_mem hp
  obtain ⟨x, -, hx⟩ := List.mem_map.mp hmem
  obtain ⟨v, hv, -⟩ := Option.map_eq_some_iff.mp hx.symm
  exact ⟨v, hv⟩

/-- A chain does not notice what happens to other cells. -/
theorem Chain.congr (hc : Chain next data h head nodes xs)
    (hframe : ∀ p ∈ nodes, h'.cell p = h.cell p) : Chain next data h' head nodes xs := by
  constructor
  · exact hc.linked.congr fun p hp => Heap.link_congr (hframe p hp) next
  · rw [← hc.carried]
    exact List.map_congr_left fun p hp => Heap.datum_congr (hframe p hp) data

/-- A new node in front of a chain. -/
theorem Chain.cons {q : ℕ} {w : β} (hc : Chain next data h head nodes xs)
    (hframe : ∀ p ∈ nodes, h'.cell p = h.cell p) (hq : h'.cell q = some w)
    (hnext : next w = head) : Chain next data h' (some q) (q :: nodes) (data w :: xs) := by
  rw [chain_cons]
  refine ⟨w, rfl, hq, rfl, ?_⟩
  rw [hnext]
  exact hc.congr hframe

/-- INTERNAL: what a chain carries up to a node, and from it on. -/
theorem Chain.carried_append {p : ℕ} {x : γ} (hlength : ps.length = xs.length)
    (hc : Chain next data h head (ps ++ p :: qs) (xs ++ x :: ys)) :
    ps.map (h.datum data) = xs.map some ∧ h.datum data p = some x ∧
      qs.map (h.datum data) = ys.map some := by
  have hcarried := hc.carried
  simp only [List.map_append, List.map_cons] at hcarried
  obtain ⟨hbefore, hrest⟩ := List.append_inj hcarried (by simpa using hlength)
  rw [List.cons.injEq] at hrest
  exact ⟨hbefore, hrest⟩

/-- INTERNAL: a chain has no more nodes than there can be live cells. -/
theorem Chain.length_le (hc : Chain next data h head nodes xs) : nodes.length ≤ h.fresh := by
  apply hc.linked.length_le
  intro p hp
  obtain ⟨v, hv⟩ := hc.live hp
  by_contra hfresh
  rw [h.dead p (Nat.le_of_not_lt hfresh)] at hv
  cases hv

/-- INTERNAL: a chain cut in two before the node at a position. -/
theorem Chain.split (hc : Chain next data h head nodes xs) {i : ℕ} (hi : i < xs.length) :
    ∃ ps p qs us x vs, nodes = ps ++ p :: qs ∧ xs = us ++ x :: vs ∧ ps.length = i ∧
      us.length = i := by
  have hi' : i < nodes.length := by rw [hc.length_eq]; exact hi
  refine ⟨nodes.take i, nodes[i], nodes.drop (i + 1), xs.take i, xs[i], xs.drop (i + 1),
    ?_, ?_, ?_, ?_⟩
  · rw [← List.drop_eq_getElem_cons hi', List.take_append_drop]
  · rw [← List.drop_eq_getElem_cons hi, List.take_append_drop]
  · rw [List.length_take]
    omega
  · rw [List.length_take]
    omega

/-- INTERNAL: the node at a position, and the datum it carries. -/
theorem Chain.cell_append {p : ℕ} {x : γ} (hlength : ps.length = xs.length)
    (hc : Chain next data h head (ps ++ p :: qs) (xs ++ x :: ys)) :
    ∃ v, h.cell p = some v ∧ data v = x ∧ next v = qs.head? := by
  obtain ⟨v, hv, hx⟩ := Option.map_eq_some_iff.mp (hc.carried_append hlength).2.1
  have hlink := hc.linked.suffix.2.head?
  rw [Heap.link_of_cell hv] at hlink
  exact ⟨v, hv, hx, hlink⟩

/-- A new node behind one of a chain. -/
theorem Chain.insert {p q : ℕ} {x : γ} {v' w : β}
    (hc : Chain next data h head (ps ++ p :: qs) (xs ++ x :: ys))
    (hlength : ps.length = xs.length) (hframe : ∀ r ∈ ps ++ qs, h'.cell r = h.cell r)
    (hp : h'.cell p = some v') (hdata : data v' = x) (hlink : next v' = some q)
    (hq : h'.cell q = some w) (hnext : next w = h.link next p) :
    Chain next data h' head (ps ++ p :: q :: qs) (xs ++ x :: data w :: ys) := by
  obtain ⟨hbefore, -, hafter⟩ := hc.carried_append hlength
  constructor
  · apply hc.linked.insert
    · intro r hr
      exact Heap.link_congr (hframe r hr) next
    · rw [Heap.link_of_cell hp, hlink]
    · rw [Heap.link_of_cell hq, hnext]
  · simp only [List.map_append, List.map_cons, Heap.datum_of_cell hp, Heap.datum_of_cell hq, hdata]
    rw [← hbefore, ← hafter]
    congr 1
    · apply List.map_congr_left
      exact fun r hr => Heap.datum_congr (hframe r (List.mem_append_left _ hr)) data
    · congr 2
      apply List.map_congr_left
      exact fun r hr => Heap.datum_congr (hframe r (List.mem_append_right _ hr)) data

/-- A node behind one of a chain is taken out; the one before it may get another datum. -/
theorem Chain.delete {p q : ℕ} {x y : γ} {v' : β}
    (hc : Chain next data h head (ps ++ p :: q :: qs) (xs ++ x :: y :: ys))
    (hlength : ps.length = xs.length) (hframe : ∀ r ∈ ps ++ qs, h'.cell r = h.cell r)
    (hp : h'.cell p = some v') (hlink : next v' = h.link next q) :
    Chain next data h' head (ps ++ p :: qs) (xs ++ data v' :: ys) := by
  obtain ⟨hbefore, -, hafter⟩ := hc.carried_append hlength
  rw [List.map_cons, List.map_cons, List.cons.injEq] at hafter
  constructor
  · apply hc.linked.delete
    · intro r hr
      exact Heap.link_congr (hframe r hr) next
    · rw [Heap.link_of_cell hp, hlink]
  · simp only [List.map_append, List.map_cons, Heap.datum_of_cell hp]
    rw [← hbefore, ← hafter.2]
    congr 1
    · apply List.map_congr_left
      exact fun r hr => Heap.datum_congr (hframe r (List.mem_append_left _ hr)) data
    · congr 1
      apply List.map_congr_left
      exact fun r hr => Heap.datum_congr (hframe r (List.mem_append_right _ hr)) data

end Chains

end Comp30023.Library
