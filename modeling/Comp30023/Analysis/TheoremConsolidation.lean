import Mathlib.Data.Set.Card
import Comp30023.Analysis.FreeListNormalForm
import Comp30023.Library.MaximalRuns
import Comp30023.Model.LinkedFreeList

/-!
# Consolidation is a normal form

`consolidate_free_memory_segments_list` turns a list of disjoint segments, highest first, into
the list of the maximal runs of the addresses they cover. On the linked nodes its loop only
moves on when nothing was merged, but each pass leaves one node less behind the cursor, so it
ends; and what it leaves is what merging does to the list of segments.
-/

set_option autoImplicit false

namespace Comp30023.Analysis

open Comp30023.Library Comp30023.Model Comp30023.Interface

/-! ## The loop on linked nodes -/

/-- From `head` on, these nodes are linked one after the other and hold these segments. -/
def FreeListAt (heap : Heap FreeMemorySegmentNode) (head : Option ℕ) (nodes : List ℕ)
    (l : List FreeMemorySegment) : Prop :=
  Chain FreeMemorySegmentNode.next FreeMemorySegmentNode.segment heap head nodes l

section Links

variable {heap : Heap FreeMemorySegmentNode} {curr next : ℕ} {c n : FreeMemorySegmentNode}

/-- INTERNAL: a pass at the last node.
SOURCE: memory-management.c:131-136 -/
theorem consolidatePass_last (hc : heap.cell curr = some c) (hend : c.next = none) :
    consolidatePass (heap, some curr) = .ok (.done (heap, some curr)) := by
  simp only [consolidatePass, Heap.load_ok hc, bind, Except.bind, hend]

/-- INTERNAL: a pass at a node that touches the next one.
SOURCE: memory-management.c:139-151 -/
theorem consolidatePass_merge (hc : heap.cell curr = some c) (hlink : c.next = some next)
    (hn : heap.cell next = some n) (hne : next ≠ curr)
    (htouch : getFreeMemorySegmentEndAddress c.segment = n.startAddress) :
    consolidatePass (heap, some curr) =
      .ok (.again ((heap.set curr { c with next := n.next, size := c.size + n.size }).erase next,
        some curr)) := by
  have hn' : (heap.set curr { c with next := n.next, size := c.size + n.size }).cell next =
      some n := by
    rw [Heap.cell_set_of_ne _ _ hne, hn]
  simp only [consolidatePass, Heap.load_ok hc, bind, Except.bind, hlink, Heap.load_ok hn,
    if_pos htouch, Heap.modify_ok hc, Heap.free_ok hn']

/-- INTERNAL: a pass at a node that does not touch the next one.
SOURCE: memory-management.c:152-156 -/
theorem consolidatePass_next (hc : heap.cell curr = some c) (hlink : c.next = some next)
    (hn : heap.cell next = some n)
    (hgap : getFreeMemorySegmentEndAddress c.segment ≠ n.startAddress) :
    consolidatePass (heap, some curr) = .ok (.again (heap, some next)) := by
  simp only [consolidatePass, Heap.load_ok hc, bind, Except.bind, hlink, Heap.load_ok hn,
    if_neg hgap]

/-- From any node on, the loop ends and leaves the merged segments; it does not touch the
cells of other nodes.
SOURCE: memory-management.c:129-158 -/
theorem exits_consolidatePass {heap : Heap FreeMemorySegmentNode} {curr : ℕ} {rest : List ℕ}
    {seg : FreeMemorySegment} {l : List FreeMemorySegment}
    (h : FreeListAt heap (some curr) (curr :: rest) (seg :: l)) :
    ∃ heap' last rest', Exits consolidatePass (heap, some curr) (heap', last) ∧
      FreeListAt heap' (some curr) (curr :: rest') (consolidateFrom seg l) ∧
      ∀ p ∉ curr :: rest, heap'.cell p = heap.cell p := by
  -- the nodes behind the cursor get fewer with every pass
  induction rest generalizing heap curr seg l with
  | nil =>
    obtain ⟨c, -, hc, rfl, hrest⟩ := chain_cons.mp h
    obtain ⟨hend, rfl⟩ := chain_nil.mp hrest
    refine ⟨heap, some curr, [], ?_, h, fun p _ => rfl⟩
    exact exits_of_done (consolidatePass_last hc hend)
  | cons next rest ih =>
    have hnodup := h.linked.nodup
    have hlength := h.length_eq
    cases l with
    | nil => simp at hlength
    | cons seg' l =>
      obtain ⟨c, -, hc, rfl, htail⟩ := chain_cons.mp h
      obtain ⟨n, hlink, hn, rfl, hrest⟩ := chain_cons.mp htail
      have hne : next ≠ curr := by
        rintro rfl
        simp at hnodup
      rw [consolidateFrom]
      by_cases htouch : getFreeMemorySegmentEndAddress c.segment = n.segment.startAddress
      · have hmerged : FreeListAt
            ((heap.set curr { c with next := n.next, size := c.size + n.size }).erase next)
            (some curr) (curr :: rest)
            ({ c.segment with size := c.segment.size + n.segment.size } :: l) := by
          have hwhole : FreeListAt heap (some curr) ([] ++ curr :: next :: rest)
              ([] ++ c.segment :: n.segment :: l) := h
          have hcell : ((heap.set curr { c with next := n.next, size := c.size + n.size }).erase
              next).cell curr = some { c with next := n.next, size := c.size + n.size } := by
            rw [Heap.cell_erase_of_ne _ hne.symm, Heap.cell_set_self]
          refine Chain.delete hwhole rfl ?_ hcell ?_
          · intro r hr
            rw [Heap.cell_erase_of_ne, Heap.cell_set_of_ne] <;> rintro rfl <;> simp_all
          · rw [Heap.link_of_cell hn]
        obtain ⟨heap', last, rest', hexits, hchain, hframe⟩ := ih hmerged
        refine ⟨heap', last, rest',
          exits_of_again (consolidatePass_merge hc hlink hn hne htouch) hexits, ?_, ?_⟩
        · rw [if_pos htouch]
          exact hchain
        · intro p hp
          simp only [List.mem_cons, not_or] at hp
          rw [hframe p (by simp [hp.1, hp.2.2]), Heap.cell_erase_of_ne _ hp.2.1,
            Heap.cell_set_of_ne _ _ hp.1]
      · rw [hlink] at htail
        obtain ⟨heap', last, rest', hexits, hchain, hframe⟩ := ih htail
        have hcurr : heap'.cell curr = some c := by
          rw [hframe curr (List.nodup_cons.mp hnodup).1, hc]
        refine ⟨heap', last, next :: rest',
          exits_of_again (consolidatePass_next hc hlink hn htouch) hexits, ?_, ?_⟩
        · rw [if_neg htouch]
          exact chain_cons.mpr ⟨c, rfl, hcurr, rfl, hlink ▸ hchain⟩
        · intro p hp
          exact hframe p fun hmem => hp (List.mem_cons_of_mem _ hmem)

/-- The loop ends on every free list, and leaves the merged segments in its nodes.
SOURCE: memory-management.c:122-161 -/
theorem exits_of_freeListAt {head : Option ℕ} {nodes : List ℕ} {l : List FreeMemorySegment}
    (h : FreeListAt heap head nodes l) :
    ∃ heap' last nodes', Exits consolidatePass (heap, head) (heap', last) ∧
      FreeListAt heap' head nodes' (consolidateFreeMemorySegmentsList l) := by
  cases head with
  | none =>
    obtain rfl : nodes = [] := linked_none.mp h.linked
    obtain ⟨-, rfl⟩ := chain_nil.mp h
    exact ⟨heap, none, [], exits_of_done rfl, h⟩
  | some curr =>
    obtain ⟨rest, seg, l, rfl, rfl⟩ := h.exists_cons
    obtain ⟨heap', last, rest', hexits, hchain, -⟩ := exits_consolidatePass h
    exact ⟨heap', last, curr :: rest', hexits, hchain⟩

end Links

/-! ## The normal form -/

/-- The addresses that the segments of a list cover. -/
def addresses (l : List FreeMemorySegment) : Set ℤ := covered (l.map segmentSpan)

/-- The list runs downwards, its segments are maximal runs of `A`, and they cover `A`. -/
structure NormalForm (A : Set ℤ) (l : List FreeMemorySegment) : Prop where
  descending : l.Pairwise fun s t => t.startAddress < s.startAddress
  maximal : ∀ s ∈ l, MaximalRun A (segmentSpan s)
  covers : addresses l = A

/-- INTERNAL: segments that do not overlap, highest first, are stacked. -/
theorem stacked_of_disjoint {l : List FreeMemorySegment} (hpos : ∀ s ∈ l, 1 ≤ s.size)
    (hdesc : l.Pairwise fun s t => t.startAddress ≤ s.startAddress)
    (hdisj : l.Pairwise fun s t => Disjoint (segmentSpan s).points (segmentSpan t).points) :
    Stacked (l.map segmentSpan) := by
  constructor
  · apply List.Pairwise.isChain
    rw [List.pairwise_map]
    apply (hdesc.and hdisj).imp_of_mem
    rintro s t hs ht ⟨hle, happart⟩
    have hspos := hpos s hs
    rcases above_or_below (s := segmentSpan s) (t := segmentSpan t) hspos (hpos t ht)
      happart with h | h
    · exact h
    · -- `s` would start below the end of `t`, which starts no higher than `s`
      have htpos := hpos t ht
      simp only [segmentSpan_top, segmentSpan_bottom, getFreeMemorySegmentEndAddress] at h ⊢
      omega
  · intro s hs
    obtain ⟨t, ht, rfl⟩ := List.mem_map.mp hs
    exact hpos t ht

/-- INTERNAL: maximal runs of one set, highest first, are coalesced. -/
theorem NormalForm.coalesced {A : Set ℤ} {l : List FreeMemorySegment} (h : NormalForm A l) :
    Coalesced (l.map segmentSpan) := by
  apply Coalesced.of_pairwise
  · rw [List.pairwise_map]
    apply h.descending.imp_of_mem
    intro s t hs ht hlt
    have hsmax := h.maximal s hs
    have htmax := h.maximal t ht
    have htpos := htmax.pos
    have htop := htmax.inside t.startAddress ⟨by
      simp only [segmentSpan_bottom, getFreeMemorySegmentEndAddress, segmentSpan_len] at htpos ⊢
      omega, le_rfl⟩
    by_contra hno
    push Not at hno
    rw [segmentSpan_top] at hno
    rcases eq_or_lt_of_le hno with heq | hinside
    · exact hsmax.below (heq ▸ htop)
    · -- the address above `t` lies in `s`
      exact htmax.above (hsmax.inside _ ⟨by simp only [segmentSpan_top]; omega,
        by simp only [segmentSpan_top]; omega⟩)
  · intro s hs
    obtain ⟨t, ht, rfl⟩ := List.mem_map.mp hs
    exact (h.maximal t ht).pos

/-- INTERNAL: a coalesced list is the normal form of what it covers. -/
theorem normalForm_of_coalesced {l : List FreeMemorySegment} (h : Coalesced (l.map segmentSpan)) :
    NormalForm (addresses l) l := by
  refine ⟨?_, fun s hs => h.maximalRun (List.mem_map_of_mem hs), rfl⟩
  apply (List.pairwise_map.mp h.pairwise).imp_of_mem
  intro s t hs ht hlt
  have hspos := h.pos _ (List.mem_map_of_mem hs)
  simp only [segmentSpan_top, segmentSpan_bottom, segmentSpan_len,
    getFreeMemorySegmentEndAddress] at hlt hspos
  omega

/-- INTERNAL: two lists in normal form that cover the same addresses are the same.
SOURCE: memory-management.h:17-22 -/
theorem NormalForm.unique {A : Set ℤ} {l m : List FreeMemorySegment} (hl : NormalForm A l)
    (hm : NormalForm A m) : l = m := by
  have hspans : l.map segmentSpan = m.map segmentSpan := by
    apply hl.coalesced.unique hm.coalesced
    intro x
    have hone := hl.coalesced.depth_le_one x
    have hone' := hm.coalesced.depth_le_one x
    have hiff : 0 < depth (l.map segmentSpan) x ↔ 0 < depth (m.map segmentSpan) x := by
      show x ∈ addresses l ↔ x ∈ addresses m
      rw [hl.covers, hm.covers]
    omega
  have hinj : Function.Injective segmentSpan := by
    rintro ⟨a, b⟩ ⟨c, d⟩ heq
    simpa [segmentSpan] using heq
  exact hinj.list_map hspans

/-- INTERNAL: merging gives the normal form.
SOURCE: memory-management.c:122-161 -/
theorem normalForm_consolidate {l : List FreeMemorySegment} (h : Stacked (l.map segmentSpan)) :
    NormalForm (addresses l) (consolidateFreeMemorySegmentsList l) := by
  cases l with
  | nil => exact normalForm_of_coalesced ⟨List.isChain_nil, by simp⟩
  | cons head rest =>
    have hsame : addresses (consolidateFrom head rest) = addresses (head :: rest) := by
      ext x
      unfold addresses covered
      rw [Set.mem_ofPred_eq, Set.mem_ofPred_eq, depth_consolidateFrom head rest
        fun t ht => h.pos _ (List.mem_map_of_mem ht)]
    have hnormal := normalForm_of_coalesced (coalesced_consolidateFrom head rest h)
    rwa [hsame] at hnormal

/-- INTERNAL: nothing is merged when no segment touches the next one.
SOURCE: memory-management.c:138-156 -/
theorem consolidate_of_gaps {l : List FreeMemorySegment}
    (h : l.IsChain fun s t => getFreeMemorySegmentEndAddress s ≠ t.startAddress) :
    consolidateFreeMemorySegmentsList l = l := by
  cases l with
  | nil => rfl
  | cons head rest =>
    show consolidateFrom head rest = head :: rest
    induction rest generalizing head with
    | nil => rfl
    | cons next rest ih =>
      rw [List.isChain_cons_cons] at h
      rw [consolidateFrom, if_neg h.1, ih next h.2]

/-- **Consolidation normalises.** For every list of disjoint segments of positive sizes,
highest first: the loop on its linked nodes ends and leaves linked nodes that hold the merged
segments; these are the one list, highest first, of the maximal runs of the addresses that the
given segments cover. Consolidating it again changes nothing, and a list in which no segment
touches the next is left as it is.
SOURCE: memory-management.c:117-161 -/
theorem consolidation_normalises (l : List FreeMemorySegment) (hpos : ∀ s ∈ l, 1 ≤ s.size)
    (hdesc : l.Pairwise fun s t => t.startAddress ≤ s.startAddress)
    (hdisj : l.Pairwise fun s t => Disjoint (segmentSpan s).points (segmentSpan t).points) :
    (∀ heap head nodes, FreeListAt heap head nodes l →
      ∃ heap' last nodes', Exits consolidatePass (heap, head) (heap', last) ∧
        FreeListAt heap' head nodes' (consolidateFreeMemorySegmentsList l)) ∧
    NormalForm (addresses l) (consolidateFreeMemorySegmentsList l) ∧
    (∀ m, NormalForm (addresses l) m → m = consolidateFreeMemorySegmentsList l) ∧
    consolidateFreeMemorySegmentsList (consolidateFreeMemorySegmentsList l) =
      consolidateFreeMemorySegmentsList l ∧
    ((l.IsChain fun s t => getFreeMemorySegmentEndAddress s ≠ t.startAddress) →
      consolidateFreeMemorySegmentsList l = l) := by
  have hnormal := normalForm_consolidate (stacked_of_disjoint hpos hdesc hdisj)
  refine ⟨fun heap head nodes h => exits_of_freeListAt h, hnormal, fun m hm => hm.unique hnormal, ?_,
    consolidate_of_gaps⟩
  apply consolidate_of_gaps
  exact (List.isChain_map segmentSpan).mp hnormal.coalesced.gaps |>.imp fun s t hlt heq => by
    simp only [segmentSpan_top, segmentSpan_bottom] at hlt
    omega

/-- Three segments that touch one another, and one that does not.
SOURCE: memory-management.c:117-161 -/
theorem consolidation_normalises_three :
    ∃ heap' last nodes', Exits consolidatePass
        (((((Heap.empty.set 5 ⟨some 2, 30, 10⟩).set 2 ⟨some 7, 20, 5⟩).set 7
          ⟨some 1, 15, 5⟩).set 1 ⟨none, 3, 2⟩), some 5) (heap', last) ∧
      FreeListAt heap' (some 5) nodes' [⟨30, 20⟩, ⟨3, 2⟩] := by
  refine (consolidation_normalises [⟨30, 10⟩, ⟨20, 5⟩, ⟨15, 5⟩, ⟨3, 2⟩] (by decide) (by decide)
    ?_).1 _ (some 5) [5, 2, 7, 1] ⟨⟨rfl, rfl, rfl, rfl, rfl⟩, rfl⟩
  simp only [List.pairwise_cons, List.mem_cons, List.not_mem_nil, or_false, Set.disjoint_left,
    Span.mem_points, segmentSpan_top, segmentSpan_bottom, getFreeMemorySegmentEndAddress]
  grind

end Comp30023.Analysis
