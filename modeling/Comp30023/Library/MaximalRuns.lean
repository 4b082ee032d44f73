import Comp30023.Library.Spans
import Mathlib.Data.List.Perm.Subperm
import Mathlib.Data.Set.Card

/-!
# Maximal runs of a set of integers

A maximal run of a set is a non-empty span inside of the set whose two neighbours are
outside of it. The spans of a coalesced list are exactly the maximal runs of what the
list covers, so that the list is the set written down run by run, and its length is the
number of runs.

A run ends below where something else begins. When everything between the runs is
filled with the spans of another list, that gives one more run than filling spans at
most.
-/

set_option autoImplicit false

namespace Comp30023.Library

/-- The span lies in `A` and cannot be made longer at either end. -/
structure MaximalRun (A : Set ℤ) (s : Span) : Prop where
  pos : 1 ≤ s.len
  inside : ∀ x ∈ s.points, x ∈ A
  below : s.bottom ∉ A
  above : s.top + 1 ∉ A

/-- The integers that the list covers. -/
def covered (l : List Span) : Set ℤ := {x | 0 < depth l x}

theorem mem_covered {l : List Span} {x : ℤ} : x ∈ covered l ↔ ∃ s ∈ l, x ∈ s.points :=
  depth_pos_iff

/-- INTERNAL: a span of a coalesced list cannot be made longer. -/
theorem Coalesced.maximalRun {l : List Span} (h : Coalesced l) {s : Span} (hs : s ∈ l) :
    MaximalRun (covered l) s := by
  have hpos := h.pos s hs
  refine ⟨hpos, ?_, ?_, ?_⟩
  · intro x hx
    exact mem_covered.mpr ⟨s, hs, hx⟩
  · intro hbelow
    obtain ⟨t, ht, hx⟩ := mem_covered.mp hbelow
    rw [Span.mem_points] at hx
    rcases h.separated hs ht with rfl | hsep | hsep <;> unfold Span.bottom at * <;> omega
  · intro habove
    obtain ⟨t, ht, hx⟩ := mem_covered.mp habove
    rw [Span.mem_points] at hx
    rcases h.separated hs ht with rfl | hsep | hsep <;> unfold Span.bottom at * <;> omega

/-- The maximal runs of what a coalesced list covers are its spans. -/
theorem Coalesced.maximalRun_iff {l : List Span} (h : Coalesced l) {s : Span} :
    MaximalRun (covered l) s ↔ s ∈ l := by
  constructor
  · intro hs
    have hlt : s.bottom < s.top := by
      have := hs.pos
      unfold Span.bottom
      omega
    obtain ⟨t, ht, hlo, hhi⟩ := h.exists_span_of_run hlt fun x hx hx' => hs.inside x ⟨hx, hx'⟩
    -- a longer span of the list would contain one of the two neighbours of `s`
    have hbot : t.bottom = s.bottom := by
      by_contra hne
      exact hs.below (mem_covered.mpr ⟨t, ht, by omega, by omega⟩)
    have htop : t.top = s.top := by
      by_contra hne
      exact hs.above (mem_covered.mpr ⟨t, ht, by omega, by omega⟩)
    have hst : s = t := by
      cases s with
      | mk a b =>
        cases t with
        | mk c d =>
          simp only [Span.bottom] at hbot htop
          simp only [Span.mk.injEq]
          omega
    rw [hst]
    exact ht
  · intro hs
    exact h.maximalRun hs

/-- INTERNAL: the lower ends of a coalesced list are pairwise different. -/
theorem Coalesced.nodup_bottom {l : List Span} (h : Coalesced l) : (l.map Span.bottom).Nodup := by
  rw [List.Nodup, List.pairwise_map]
  apply List.Pairwise.imp_of_mem _ h.pairwise
  intro s t hs ht hst
  have := h.pos t ht
  unfold Span.bottom at *
  omega

/-- A coalesced list has as many spans as what it covers has maximal runs. -/
theorem Coalesced.ncard_maximalRun {l : List Span} (h : Coalesced l) :
    {s | MaximalRun (covered l) s}.ncard = l.length := by
  have hset : {s | MaximalRun (covered l) s} = (l.toFinset : Set Span) := by
    ext s
    simp only [Set.mem_ofPred_eq, List.coe_toFinset]
    exact h.maximalRun_iff
  rw [hset, Set.ncard_coe_finset]
  exact List.toFinset_card_of_nodup h.nodup_bottom.of_map

/-- INTERNAL: between two lists that nowhere overlap, a span of one that stands on a point
of the other stands on the top of one of its spans. -/
theorem bottom_mem_tops {l r : List Span} (hpos : ∀ s ∈ l, 1 ≤ s.len)
    (hone : ∀ x, depth l x + depth r x ≤ 1) {s : Span} (hs : s ∈ l)
    (hbot : 0 < depth r s.bottom) : s.bottom ∈ r.map Span.top := by
  obtain ⟨t, ht, hx⟩ := depth_pos_iff.mp hbot
  rw [Span.mem_points] at hx
  have hlen := hpos s hs
  have htop : t.top = s.bottom := by
    by_contra hne
    -- otherwise `t` reaches into `s`
    have hl := depth_pos_iff.mpr ⟨s, hs, show s.bottom + 1 ∈ s.points by
      rw [Span.mem_points]
      unfold Span.bottom
      omega⟩
    have hr := depth_pos_iff.mpr ⟨t, ht, show s.bottom + 1 ∈ t.points by
      rw [Span.mem_points]
      omega⟩
    have := hone (s.bottom + 1)
    omega
  rw [← htop]
  exact List.mem_map_of_mem ht

/-- When every span of a coalesced list stands on the bottom `a` or on a span of `r`, it has
at most one span more than `r`. -/
theorem Coalesced.length_le {l r : List Span} (h : Coalesced l) (a : ℤ)
    (hone : ∀ x, depth l x + depth r x ≤ 1)
    (hstand : ∀ s ∈ l, s.bottom = a ∨ 0 < depth r s.bottom) : l.length ≤ r.length + 1 := by
  have hsub : l.map Span.bottom ⊆ a :: r.map Span.top := by
    intro x hx
    obtain ⟨s, hs, rfl⟩ := List.mem_map.mp hx
    rcases hstand s hs with ha | hr
    · rw [ha]
      exact List.mem_cons_self
    · exact List.mem_cons_of_mem _ (bottom_mem_tops h.pos hone hs hr)
  have hlen := (List.subperm_of_subset h.nodup_bottom hsub).length_le
  simpa using hlen

end Comp30023.Library
