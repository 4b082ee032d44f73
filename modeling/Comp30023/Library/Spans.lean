import Mathlib.Data.Int.Interval
import Mathlib.Data.Int.ConditionallyCompleteOrder
import Mathlib.Data.List.Chain
import Mathlib.Data.Set.Lattice
import Mathlib.Order.CompletePartialOrder
import Mathlib.Order.Interval.Finset.Basic
import Mathlib.Algebra.BigOperators.Group.List.Basic
import Mathlib.Algebra.BigOperators.Group.Finset.Basic
import Mathlib.Tactic.Linarith

/-!
# Lists of integer spans

A `Span` is the half-open run of integers `(top - len, top]`. A list of spans is
measured by its `depth`: at each integer, how many of its spans contain it. Depth
is additive under appending and does not see the order of the list, so moving a
span, cutting one in two or joining two neighbours is a statement about one or
two terms. Disjointness is "depth at most one", covering is "depth at least one".

A list is `Coalesced` when it runs strictly downwards, its spans are not empty and
neighbouring spans do not touch. A coalesced list is the normal form of the set it
covers: it is determined by its depth (`Coalesced.unique`), and any run of covered
integers lies inside a single one of its spans (`Coalesced.exists_span_of_run`).
-/

set_option autoImplicit false

namespace Comp30023.Library

/-- The run of `len` integers whose largest is `top`. -/
structure Span where
  top : ℤ
  len : ℤ
deriving Repr, DecidableEq

namespace Span

/-- The integer just below the span. -/
def bottom (s : Span) : ℤ := s.top - s.len

/-- The integers of the span. -/
def points (s : Span) : Set ℤ := Set.Ioc s.bottom s.top

@[simp] theorem mem_points {s : Span} {x : ℤ} : x ∈ s.points ↔ s.bottom < x ∧ x ≤ s.top :=
  Iff.rfl

instance (s : Span) (x : ℤ) : Decidable (x ∈ s.points) := decidable_of_iff _ mem_points.symm

end Span

/-- How many spans of the list contain `x`. -/
def depth (l : List Span) (x : ℤ) : ℕ := l.countP fun s => decide (x ∈ s.points)

@[simp] theorem depth_nil (x : ℤ) : depth [] x = 0 := rfl

theorem depth_cons (s : Span) (l : List Span) (x : ℤ) :
    depth (s :: l) x = (if x ∈ s.points then 1 else 0) + depth l x := by
  unfold depth
  rw [List.countP_cons, Nat.add_comm]
  simp only [decide_eq_true_eq]

@[simp] theorem depth_append (l m : List Span) (x : ℤ) :
    depth (l ++ m) x = depth l x + depth m x := by
  simp [depth]

theorem depth_perm {l m : List Span} (h : l.Perm m) (x : ℤ) : depth l x = depth m x :=
  h.countP_eq _

/-- INTERNAL: depth is positive exactly on the union of the spans. -/
theorem depth_pos_iff {l : List Span} {x : ℤ} : 0 < depth l x ↔ ∃ s ∈ l, x ∈ s.points := by
  simp [depth, List.countP_pos_iff]

/-- INTERNAL: a list that covers no integer twice is pairwise disjoint. -/
theorem pairwise_disjoint_of_depth {l : List Span} (h : ∀ x, depth l x ≤ 1) :
    l.Pairwise fun s t => Disjoint s.points t.points := by
  induction l with
  | nil => exact List.Pairwise.nil
  | cons s l ih =>
    rw [List.pairwise_cons]
    constructor
    · intro t ht
      rw [Set.disjoint_left]
      intro x hs hx
      have hpos := depth_pos_iff.mpr ⟨t, ht, hx⟩
      have hx1 := h x
      rw [depth_cons, if_pos hs] at hx1
      omega
    · apply ih
      intro x
      have hx := h x
      rw [depth_cons] at hx
      omega

/-- INTERNAL: counting every integer of a range as often as it is covered gives the
total length of the spans, when they all lie in that range. -/
theorem sum_depth {l : List Span} {a b : ℤ}
    (h : ∀ s ∈ l, 0 ≤ s.len ∧ a ≤ s.bottom ∧ s.top ≤ b) :
    ∑ x ∈ Finset.Ioc a b, (depth l x : ℤ) = (l.map Span.len).sum := by
  induction l with
  | nil => simp
  | cons s l ih =>
    obtain ⟨hlen, hlo, hhi⟩ := h s (by simp)
    have hcard : ∑ x ∈ Finset.Ioc a b, (if x ∈ s.points then (1 : ℤ) else 0) = s.len := by
      rw [← Finset.sum_filter]
      have hset : (Finset.Ioc a b).filter (fun x => x ∈ s.points) = Finset.Ioc s.bottom s.top := by
        ext x
        simp only [Finset.mem_filter, Finset.mem_Ioc, Span.mem_points]
        constructor
        · intro hx
          exact hx.2
        · intro hx
          exact ⟨⟨by omega, by omega⟩, hx⟩
      rw [hset]
      simp only [Finset.sum_const, Int.card_Ioc, Span.bottom]
      simp only [sub_sub_cancel, nsmul_eq_mul, mul_one]
      omega
    have htail := ih fun t ht => h t (by simp [ht])
    have hsplit : ∀ x, (depth (s :: l) x : ℤ) =
        (if x ∈ s.points then (1 : ℤ) else 0) + (depth l x : ℤ) := by
      intro x
      rw [depth_cons]
      split <;> simp
    simp only [hsplit, Finset.sum_add_distrib, hcard, htail, List.map_cons, List.sum_cons]

/-- A list of non-empty spans running downwards without overlap; neighbours may touch. -/
structure Stacked (l : List Span) : Prop where
  ordered : l.IsChain fun s t => t.top ≤ s.bottom
  pos : ∀ s ∈ l, 1 ≤ s.len

/-- A list of non-empty spans running strictly downwards, no two of them touching. -/
structure Coalesced (l : List Span) : Prop where
  gaps : l.IsChain fun s t => t.top < s.bottom
  pos : ∀ s ∈ l, 1 ≤ s.len

/-- INTERNAL: in a coalesced list the gap condition holds between any two spans. -/
theorem Coalesced.pairwise {l : List Span} (h : Coalesced l) :
    l.Pairwise fun s t => t.top < s.bottom := by
  obtain ⟨hgaps, hpos⟩ := h
  induction l with
  | nil => exact List.Pairwise.nil
  | cons s l ih =>
    have hl := ih hgaps.tail fun t ht => hpos t (by simp [ht])
    rw [List.pairwise_cons]
    refine ⟨?_, hl⟩
    cases l with
    | nil => simp
    | cons u l =>
      have hsu : u.top < s.bottom := by simpa using (List.isChain_cons_cons.mp hgaps).1
      intro t ht
      rcases List.mem_cons.mp ht with rfl | ht
      · exact hsu
      · have hut := (List.pairwise_cons.mp hl).1 t ht
        have hu := hpos u (by simp)
        unfold Span.bottom at hut hsu ⊢
        omega

/-- INTERNAL: the gap condition between any two spans is more than enough. -/
theorem Coalesced.of_pairwise {l : List Span} (h : l.Pairwise fun s t => t.top < s.bottom)
    (hpos : ∀ s ∈ l, 1 ≤ s.len) : Coalesced l :=
  ⟨h.isChain, hpos⟩

theorem Coalesced.tail {s : Span} {l : List Span} (h : Coalesced (s :: l)) : Coalesced l :=
  ⟨h.gaps.tail, fun t ht => h.pos t (by simp [ht])⟩

/-- INTERNAL: nothing of a coalesced list lies above its first span. -/
theorem Coalesced.depth_above {s : Span} {l : List Span} (h : Coalesced (s :: l)) {x : ℤ}
    (hx : s.bottom ≤ x) : depth l x = 0 := by
  by_contra hne
  obtain ⟨t, ht, hxt⟩ := depth_pos_iff.mp (Nat.pos_of_ne_zero hne)
  have hgap := (List.pairwise_cons.mp h.pairwise).1 t ht
  rw [Span.mem_points] at hxt
  omega

/-- A coalesced list covers no integer twice. -/
theorem Coalesced.depth_le_one {l : List Span} (h : Coalesced l) (x : ℤ) : depth l x ≤ 1 := by
  induction l with
  | nil => simp
  | cons s l ih =>
    rw [depth_cons]
    split_ifs with hx
    · rw [h.depth_above (le_of_lt hx.1)]
    · rw [Nat.zero_add]
      exact ih h.tail

/-- INTERNAL: the first spans of two coalesced lists with the same points reach
equally high and equally low. -/
theorem Coalesced.head_eq {s t : Span} {l m : List Span} (hl : Coalesced (s :: l))
    (hm : Coalesced (t :: m)) (h : ∀ x, depth (s :: l) x = depth (t :: m) x) : s = t := by
  have hs := hl.pos s (by simp)
  have ht := hm.pos t (by simp)
  have htop : s.top = t.top := by
    rcases lt_trichotomy s.top t.top with hlt | heq | hlt
    · have hx := h t.top
      rw [depth_cons, depth_cons, if_neg (by simp; omega),
        hl.depth_above (by unfold Span.bottom; omega), if_pos (by simp [Span.bottom]; omega)] at hx
      omega
    · exact heq
    · have hx := h s.top
      rw [depth_cons, depth_cons, if_pos (by simp [Span.bottom]; omega), if_neg (by simp; omega),
        hm.depth_above (by unfold Span.bottom; omega)] at hx
      omega
  have hbot : s.bottom = t.bottom := by
    rcases lt_trichotomy s.bottom t.bottom with hlt | heq | hlt
    · have hx := h t.bottom
      rw [depth_cons, depth_cons, if_pos (by simp [Span.bottom] at *; omega), if_neg (by simp),
        hm.depth_above le_rfl] at hx
      omega
    · exact heq
    · have hx := h s.bottom
      rw [depth_cons, depth_cons, if_neg (by simp), hl.depth_above le_rfl,
        if_pos (by simp [Span.bottom] at *; omega)] at hx
      omega
  cases s with
  | mk a b =>
    cases t with
    | mk c d =>
      simp only [Span.bottom] at htop hbot
      simp only [Span.mk.injEq]
      omega

/-- The normal form is unique: two coalesced lists that cover the same integers
are the same list. -/
theorem Coalesced.unique {l m : List Span} (hl : Coalesced l) (hm : Coalesced m)
    (h : ∀ x, depth l x = depth m x) : l = m := by
  have hnonempty : ∀ (s : Span) (k : List Span), Coalesced (s :: k) → 0 < depth (s :: k) s.top := by
    intro s k hk
    have := hk.pos s (by simp)
    exact depth_pos_iff.mpr ⟨s, by simp, by simp [Span.bottom]; omega⟩
  induction l generalizing m with
  | nil =>
    cases m with
    | nil => rfl
    | cons t m =>
      have := hnonempty t m hm
      rw [← h] at this
      simp at this
  | cons s l ih =>
    cases m with
    | nil =>
      have := hnonempty s l hl
      rw [h] at this
      simp at this
    | cons t m =>
      have hst := hl.head_eq hm h
      subst hst
      have hrest : ∀ x, depth l x = depth m x := by
        intro x
        have hx := h x
        rw [depth_cons, depth_cons] at hx
        omega
      rw [ih hl.tail hm.tail hrest]

/-- INTERNAL: two spans of a coalesced list are the same or one lies below the other. -/
theorem Coalesced.separated {l : List Span} (h : Coalesced l) {s t : Span} (hs : s ∈ l)
    (ht : t ∈ l) : s = t ∨ t.top < s.bottom ∨ s.top < t.bottom := by
  obtain ⟨i, hi, rfl⟩ := List.getElem_of_mem hs
  obtain ⟨j, hj, rfl⟩ := List.getElem_of_mem ht
  have hpw := List.pairwise_iff_getElem.mp h.pairwise
  rcases lt_trichotomy i j with hij | hij | hij
  · exact Or.inr (Or.inl (hpw i j hi hj hij))
  · subst hij
    exact Or.inl rfl
  · exact Or.inr (Or.inr (hpw j i hj hi hij))

/-- Any run of integers that a coalesced list covers lies inside one of its spans. -/
theorem Coalesced.exists_span_of_run {l : List Span} (h : Coalesced l) {lo hi : ℤ} (hlt : lo < hi)
    (hrun : ∀ x, lo < x → x ≤ hi → 0 < depth l x) : ∃ s ∈ l, s.bottom ≤ lo ∧ hi ≤ s.top := by
  obtain ⟨s, hs, hx⟩ := depth_pos_iff.mp (hrun hi hlt le_rfl)
  refine ⟨s, hs, ?_, hx.2⟩
  by_contra hbot
  push Not at hbot
  -- the point at the lower edge of `s` would have to be covered by a span touching `s`
  obtain ⟨t, ht, hedge⟩ := depth_pos_iff.mp (hrun s.bottom hbot (le_of_lt hx.1))
  rw [Span.mem_points] at hx hedge
  rcases h.separated hs ht with rfl | hsep | hsep <;> omega

end Comp30023.Library
