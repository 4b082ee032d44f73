import Comp30023.Interface.MemoryLayout

/-!
# The free list stays in normal form

Every change of the free list goes through two functions. Giving addresses back
(`addNewFreeMemorySegmentToFreeMemorySegmentsList`) inserts a segment at its sorted
position and merges neighbours that touch; taking addresses
(`occupyFreeMemorySegment`) cuts them from the top of the first segment that is
large enough. Both keep the list coalesced, and both change the covered addresses by
exactly the run that was given back or taken.
-/

set_option autoImplicit false

namespace Comp30023.Analysis

open Comp30023.Library Comp30023.Model Comp30023.Interface

/-! ## Giving addresses back -/

/-- INTERNAL: merging keeps the start address of the segment under the cursor.
SOURCE: memory-management.c:129-158 -/
theorem consolidateFrom_head (curr : FreeMemorySegment) (rest : List FreeMemorySegment) :
    ∃ size tail, consolidateFrom curr rest = ⟨curr.startAddress, size⟩ :: tail := by
  induction rest generalizing curr with
  | nil => exact ⟨curr.size, [], rfl⟩
  | cons next rest ih =>
    unfold consolidateFrom
    split
    · exact ih _
    · exact ⟨curr.size, _, rfl⟩

/-- INTERNAL: merging does not change which addresses are free.
SOURCE: memory-management.c:129-158 -/
theorem depth_consolidateFrom (curr : FreeMemorySegment) (rest : List FreeMemorySegment)
    (hpos : ∀ t ∈ curr :: rest, 1 ≤ t.size) (x : ℤ) :
    depth ((consolidateFrom curr rest).map segmentSpan) x =
      depth ((curr :: rest).map segmentSpan) x := by
  induction rest generalizing curr with
  | nil => rfl
  | cons next rest ih =>
    have hcurr := hpos curr (by simp)
    have hnext := hpos next (by simp)
    have hrest : ∀ t ∈ rest, 1 ≤ t.size := by
      intro t ht
      exact hpos t (by simp [ht])
    unfold consolidateFrom
    split
    · rename_i htouch
      rw [ih]
      · simp only [List.map_cons, depth_cons, segmentSpan, Span.mem_points, Span.bottom]
        unfold getFreeMemorySegmentEndAddress at htouch
        rw [← Nat.add_assoc]
        congr 1
        -- the merged run is the disjoint union of the two runs
        split_ifs <;> first | rfl | omega
      · intro t ht
        rcases List.mem_cons.mp ht with rfl | ht
        · show 1 ≤ curr.size + next.size
          omega
        · exact hrest t ht
    · rw [List.map_cons, List.map_cons, depth_cons, depth_cons, ih next]
      intro t ht
      exact hpos t (List.mem_cons_of_mem _ ht)

/-- INTERNAL: merging a list of stacked segments makes it coalesced.
SOURCE: memory-management.c:129-158 -/
theorem coalesced_consolidateFrom (curr : FreeMemorySegment) (rest : List FreeMemorySegment)
    (h : Stacked ((curr :: rest).map segmentSpan)) :
    Coalesced ((consolidateFrom curr rest).map segmentSpan) := by
  induction rest generalizing curr with
  | nil =>
    refine ⟨List.isChain_singleton _, fun s hs => h.pos s ?_⟩
    simpa [consolidateFrom] using hs
  | cons next rest ih =>
    have hpos : ∀ s ∈ (next :: rest).map segmentSpan, 1 ≤ s.len := fun s hs =>
      h.pos s (by rw [List.map_cons]; exact List.mem_cons_of_mem _ hs)
    have hcurr : 1 ≤ curr.size := h.pos (segmentSpan curr) (by simp)
    have hnext : 1 ≤ next.size := h.pos (segmentSpan next) (by simp)
    have hord := h.ordered
    simp only [List.map_cons, List.isChain_cons_cons] at hord
    obtain ⟨hbelow, hord⟩ := hord
    unfold consolidateFrom
    split
    · rename_i htouch
      apply ih
      constructor
      · rw [List.map_cons]
        cases rest with
        | nil => exact List.isChain_singleton _
        | cons t rest =>
          simp only [List.map_cons, List.isChain_cons_cons] at hord ⊢
          refine ⟨?_, hord.2⟩
          have ht := hord.1
          simp only [segmentSpan_top, segmentSpan_bottom,
            getFreeMemorySegmentEndAddress] at ht htouch ⊢
          omega
      · intro s hs
        rw [List.map_cons] at hs
        rcases List.mem_cons.mp hs with rfl | hs
        · show 1 ≤ curr.size + next.size
          omega
        · exact hpos s (by rw [List.map_cons]; exact List.mem_cons_of_mem _ hs)
    · rename_i hgap
      have htail := ih next ⟨by rw [List.map_cons]; exact hord, hpos⟩
      obtain ⟨size, tail, heq⟩ := consolidateFrom_head next rest
      rw [heq] at htail ⊢
      constructor
      · simp only [List.map_cons, List.isChain_cons_cons]
        refine ⟨?_, by simpa using htail.gaps⟩
        simp only [segmentSpan_top, segmentSpan_bottom] at hbelow ⊢
        omega
      · intro s hs
        rw [List.map_cons] at hs
        rcases List.mem_cons.mp hs with rfl | hs
        · exact hcurr
        · exact htail.pos s hs

/-- INTERNAL: the insertion puts the segment somewhere in the list.
SOURCE: memory-management.c:70-111 -/
theorem insertFreeMemorySegment_perm (memSeg : FreeMemorySegment) (l : List FreeMemorySegment) :
    (insertFreeMemorySegment memSeg l).Perm (memSeg :: l) := by
  induction l with
  | nil => exact List.Perm.refl _
  | cons curr rest ih =>
    unfold insertFreeMemorySegment
    split
    · exact List.Perm.refl _
    · exact (ih.cons curr).trans (List.Perm.swap memSeg curr rest)

/-- INTERNAL: two non-empty runs without a common address lie one above the other. -/
theorem above_or_below {s t : Span} (hs : 1 ≤ s.len) (ht : 1 ≤ t.len)
    (h : Disjoint s.points t.points) : t.top ≤ s.bottom ∨ s.top ≤ t.bottom := by
  rw [Set.disjoint_left] at h
  by_contra hno
  push Not at hno
  have hs' := h (a := min s.top t.top)
  simp only [Span.mem_points, Span.bottom] at hs' hno
  apply hs' <;> omega

/-- INTERNAL: a segment without a common address with a coalesced list is inserted
between the segments above and below it.
SOURCE: memory-management.c:70-111 -/
theorem stacked_insertFreeMemorySegment (memSeg : FreeMemorySegment)
    (l : List FreeMemorySegment) (hl : Coalesced (l.map segmentSpan)) (hsize : 1 ≤ memSeg.size)
    (hdisj : ∀ t ∈ l, Disjoint (segmentSpan memSeg).points (segmentSpan t).points) :
    Stacked ((insertFreeMemorySegment memSeg l).map segmentSpan) := by
  have hpos : ∀ s ∈ (insertFreeMemorySegment memSeg l).map segmentSpan, 1 ≤ s.len := by
    intro s hs
    obtain ⟨t, ht, rfl⟩ := List.mem_map.mp hs
    rcases List.mem_cons.mp ((insertFreeMemorySegment_perm memSeg l).mem_iff.mp ht) with rfl | ht
    · exact hsize
    · exact hl.pos _ (List.mem_map_of_mem ht)
  refine ⟨?_, hpos⟩
  clear hpos
  induction l with
  | nil => exact List.isChain_singleton _
  | cons curr rest ih =>
    have hcurr : 1 ≤ curr.size := hl.pos (segmentSpan curr) (by simp)
    have hsep := above_or_below (s := segmentSpan memSeg) (t := segmentSpan curr) hsize hcurr
      (hdisj curr (by simp))
    have hgaps := hl.gaps
    unfold insertFreeMemorySegment
    split
    · rename_i hge
      simp only [List.map_cons, List.isChain_cons_cons]
      refine ⟨?_, hgaps.imp fun s t h => le_of_lt h⟩
      simp only [segmentSpan_top, segmentSpan_bottom, getFreeMemorySegmentEndAddress] at hsep ⊢
      omega
    · rename_i hlt
      have hrest := ih hl.tail fun t ht => hdisj t (by simp [ht])
      have habove : memSeg.startAddress ≤ getFreeMemorySegmentEndAddress curr := by
        simp only [segmentSpan_top, segmentSpan_bottom, getFreeMemorySegmentEndAddress] at hsep ⊢
        omega
      cases rest with
      | nil => simpa [insertFreeMemorySegment] using habove
      | cons t rest =>
        simp only [List.map_cons, List.isChain_cons_cons] at hgaps
        have hbelow := hgaps.1
        simp only [segmentSpan_top, segmentSpan_bottom] at hbelow
        simp only [insertFreeMemorySegment, List.map_cons] at hrest ⊢
        split at hrest <;> rename_i h <;> simp only [h, if_true, if_false, List.map_cons,
          List.isChain_cons_cons, segmentSpan_top, segmentSpan_bottom] at hrest ⊢
        · exact ⟨habove, hrest⟩
        · exact ⟨le_of_lt hbelow, hrest⟩

/-- Giving back a run of addresses that was not free keeps the free list coalesced and
makes exactly that run free.
SOURCE: memory-management.c:50-161 -/
theorem addNewFreeMemorySegment_spec (startAddress size : ℤ) (l : List FreeMemorySegment)
    (hl : Coalesced (l.map segmentSpan)) (hsize : 1 ≤ size)
    (hfree : ∀ x ∈ (Span.mk startAddress size).points, depth (l.map segmentSpan) x = 0) :
    Coalesced ((addNewFreeMemorySegmentToFreeMemorySegmentsList startAddress size l).map
      segmentSpan) ∧
    ∀ x, depth ((addNewFreeMemorySegmentToFreeMemorySegmentsList startAddress size l).map
        segmentSpan) x =
      depth (l.map segmentSpan) x + depth [Span.mk startAddress size] x := by
  have hdisj : ∀ t ∈ l, Disjoint (segmentSpan ⟨startAddress, size⟩).points
      (segmentSpan t).points := by
    intro t ht
    rw [Set.disjoint_left]
    intro x hx hxt
    have hpos := depth_pos_iff.mpr ⟨segmentSpan t, List.mem_map_of_mem ht, hxt⟩
    have := hfree x hx
    omega
  have hstack := stacked_insertFreeMemorySegment ⟨startAddress, size⟩ l hl hsize hdisj
  have hperm := insertFreeMemorySegment_perm ⟨startAddress, size⟩ l
  unfold addNewFreeMemorySegmentToFreeMemorySegmentsList consolidateFreeMemorySegmentsList
  cases hins : insertFreeMemorySegment ⟨startAddress, size⟩ l with
  | nil => rw [hins] at hperm; simpa using hperm.length_eq
  | cons curr rest =>
    rw [hins] at hstack hperm
    refine ⟨coalesced_consolidateFrom curr rest hstack, fun x => ?_⟩
    rw [depth_consolidateFrom curr rest
      (fun t ht => hstack.pos _ (List.mem_map_of_mem ht)) x,
      depth_perm (hperm.map segmentSpan) x, List.map_cons, depth_cons, depth_cons, depth_nil]
    rw [Nat.add_zero, Nat.add_comm]
    rfl

/-! ## Taking addresses -/

/-- INTERNAL: no segment is taken exactly when every segment is too small.
SOURCE: memory-management.c:360-397 -/
theorem occupyFreeMemorySegment_eq_none {size : ℤ} {l : List FreeMemorySegment} :
    occupyFreeMemorySegment size l = none ↔ ∀ t ∈ l, t.size < size := by
  induction l with
  | nil => simp [occupyFreeMemorySegment]
  | cons curr rest ih =>
    unfold occupyFreeMemorySegment
    by_cases hfit : size ≤ curr.size
    · rw [if_pos hfit]
      constructor
      · intro h
        split at h <;> simp at h
      · intro h
        have := h curr (by simp)
        omega
    · rw [if_neg hfit, Option.map_eq_none_iff, ih]
      simp only [List.mem_cons, forall_eq_or_imp]
      constructor
      · intro h
        exact ⟨by omega, h⟩
      · intro h
        exact h.2

/-- INTERNAL: the run is cut from the top of the first segment that is large enough.
SOURCE: memory-management.c:360-397 -/
theorem occupyFreeMemorySegment_first {size startAddress : ℤ} {l l' : List FreeMemorySegment}
    (h : occupyFreeMemorySegment size l = some (startAddress, l')) :
    ∃ (l₁ : List FreeMemorySegment) (t : FreeMemorySegment) (l₂ : List FreeMemorySegment),
      l = l₁ ++ t :: l₂ ∧ (∀ u ∈ l₁, u.size < size) ∧ size ≤ t.size ∧
      startAddress = t.startAddress ∧
      l' = l₁ ++ (if t.size - size = 0 then [] else
        [⟨t.startAddress - size, t.size - size⟩]) ++ l₂ := by
  induction l generalizing l' with
  | nil => simp [occupyFreeMemorySegment] at h
  | cons curr rest ih =>
    unfold occupyFreeMemorySegment at h
    by_cases hfit : size ≤ curr.size
    · rw [if_pos hfit] at h
      refine ⟨[], curr, rest, rfl, by simp, hfit, ?_⟩
      split at h <;> rename_i hz <;>
        simp only [Option.some.injEq, Prod.mk.injEq] at h <;> simp [hz, h.1.symm, h.2.symm]
    · rw [if_neg hfit, Option.map_eq_some_iff] at h
      obtain ⟨⟨a, r⟩, hr, heq⟩ := h
      simp only [Prod.mk.injEq] at heq
      obtain ⟨rfl, rfl⟩ := heq
      obtain ⟨l₁, t, l₂, rfl, hsmall, hsize, hstart, rfl⟩ := ih hr
      refine ⟨curr :: l₁, t, l₂, rfl, ?_, hsize, hstart, by simp⟩
      intro u hu
      rcases List.mem_cons.mp hu with rfl | hu
      · omega
      · exact hsmall u hu

/-- Taking a run of addresses keeps the free list coalesced and makes exactly that run
no longer free.
SOURCE: memory-management.c:360-397 -/
theorem occupyFreeMemorySegment_spec {size startAddress : ℤ} {l l' : List FreeMemorySegment}
    (h : occupyFreeMemorySegment size l = some (startAddress, l'))
    (hl : Coalesced (l.map segmentSpan)) (hsize : 1 ≤ size) :
    Coalesced (l'.map segmentSpan) ∧
    ∀ x, depth (l.map segmentSpan) x =
      depth (l'.map segmentSpan) x + depth [Span.mk startAddress size] x := by
  obtain ⟨l₁, t, l₂, rfl, -, hfit, rfl, rfl⟩ := occupyFreeMemorySegment_first h
  have hpw := hl.pairwise
  have hpos := hl.pos
  simp only [List.map_append, List.map_cons, List.pairwise_append, List.pairwise_cons] at hpw
  obtain ⟨h₁, ⟨ht, h₂⟩, h₁₂⟩ := hpw
  rw [List.map_append, List.map_cons] at hpos
  have hpos₁ : ∀ s ∈ l₁.map segmentSpan, 1 ≤ s.len := fun s hs =>
    hpos s (List.mem_append_left _ hs)
  have hpos₂ : ∀ s ∈ l₂.map segmentSpan, 1 ≤ s.len := fun s hs =>
    hpos s (List.mem_append_right _ (List.mem_cons_of_mem _ hs))
  by_cases hz : t.size - size = 0
  · simp only [hz, if_true, List.append_nil, List.map_append, List.map_cons]
    constructor
    · apply Coalesced.of_pairwise
      · rw [List.pairwise_append]
        exact ⟨h₁, h₂, fun a ha b hb => h₁₂ a ha b (List.mem_cons_of_mem _ hb)⟩
      · intro s hs
        rcases List.mem_append.mp hs with hs | hs
        · exact hpos₁ s hs
        · exact hpos₂ s hs
    · intro x
      have hsz : t.size = size := by omega
      simp only [depth_append, depth_cons, depth_nil, segmentSpan, hsz]
      omega
  · simp only [hz, if_false, List.map_append, List.map_cons, List.map_nil]
    constructor
    · apply Coalesced.of_pairwise
      · rw [List.append_assoc, List.pairwise_append, List.singleton_append, List.pairwise_cons]
        refine ⟨h₁, ⟨fun b hb => ?_, h₂⟩, fun a ha b hb => ?_⟩
        · have := ht b hb
          simp only [segmentSpan_bottom, getFreeMemorySegmentEndAddress] at this ⊢
          omega
        · rcases List.mem_cons.mp hb with rfl | hb
          · have := h₁₂ a ha (segmentSpan t) (by simp)
            simp only [segmentSpan_top] at this ⊢
            omega
          · exact h₁₂ a ha b (List.mem_cons_of_mem _ hb)
      · intro s hs
        rcases List.mem_append.mp hs with hs | hs
        · rcases List.mem_append.mp hs with hs | hs
          · exact hpos₁ s hs
          · rw [List.mem_singleton.mp hs, segmentSpan_len]
            show 1 ≤ t.size - size
            omega
        · exact hpos₂ s hs
    · intro x
      simp only [depth_append, depth_cons, depth_nil, segmentSpan, Span.mem_points, Span.bottom]
      split_ifs <;> omega

end Comp30023.Analysis
