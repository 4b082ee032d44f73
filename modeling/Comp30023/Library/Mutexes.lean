import Mathlib.Data.List.Basic
import Mathlib.Order.Basic

/-!
# Mutexes

Agents of any kind lock and unlock mutexes. `Owned held holds` says that the mutexes which are
locked are those that the agents hold, and that no two agents hold the same one; it is kept when
an agent locks a free mutex and when it unlocks one of its own. When the mutexes have ranks and
an agent only waits for one above all that it holds, agents cannot wait for one another in a
circle: as long as there is something to do, some agent can do it.

What agents append to a common list while they hold a mutex forms blocks, each of one agent and
each whole but for the last.
-/

set_option autoImplicit false

namespace Comp30023.Library

variable {ι μ β : Type}

/-- The mutexes in `held` are locked, each by one of the agents. -/
structure Owned (held : List μ) (holds : ι → List μ) : Prop where
  mem_iff : ∀ m, m ∈ held ↔ ∃ i, m ∈ holds i
  exclusive : ∀ i j m, m ∈ holds i → m ∈ holds j → i = j

theorem owned_nil : Owned ([] : List μ) fun _ : ι => [] :=
  ⟨fun m => by simp, fun i j m hm => by simp at hm⟩

section Rules

variable {held : List μ} {holds holds' : ι → List μ} {i : ι} {m : μ}

/-- INTERNAL: nothing is locked or unlocked. -/
theorem Owned.congr (h : Owned held holds) (hsame : ∀ j, holds' j = holds j) :
    Owned held holds' := by
  obtain rfl : holds' = holds := funext hsame
  exact h

/-- An agent locks a free mutex. -/
theorem Owned.lock (h : Owned held holds) (hfree : m ∉ held) (hself : holds' i = m :: holds i)
    (hothers : ∀ j, j ≠ i → holds' j = holds j) : Owned (m :: held) holds' := by
  have hmem : ∀ j k, k ∈ holds' j ↔ k ∈ holds j ∨ k = m ∧ j = i := by
    intro j k
    by_cases hj : j = i
    · subst hj
      rw [hself, List.mem_cons]
      tauto
    · rw [hothers j hj]
      tauto
  have hnobody : ∀ j, m ∉ holds j := fun j hj => hfree ((h.mem_iff m).mpr ⟨j, hj⟩)
  constructor
  · intro k
    rw [List.mem_cons, h.mem_iff]
    constructor
    · rintro (rfl | ⟨j, hj⟩)
      · exact ⟨i, (hmem i k).mpr (Or.inr ⟨rfl, rfl⟩)⟩
      · exact ⟨j, (hmem j k).mpr (Or.inl hj)⟩
    · rintro ⟨j, hj⟩
      rcases (hmem j k).mp hj with hj | ⟨rfl, -⟩
      · exact Or.inr ⟨j, hj⟩
      · exact Or.inl rfl
  · intro j k m' hj hk
    rcases (hmem j m').mp hj with hj | ⟨rfl, rfl⟩
    · rcases (hmem k m').mp hk with hk | ⟨rfl, rfl⟩
      · exact h.exclusive j k m' hj hk
      · exact absurd hj (hnobody j)
    · rcases (hmem k m').mp hk with hk | ⟨-, rfl⟩
      · exact absurd hk (hnobody k)
      · rfl

variable [DecidableEq μ]

/-- An agent unlocks a mutex that it holds. -/
theorem Owned.unlock (h : Owned held holds) (hm : m ∈ holds i)
    (hself : holds' i = (holds i).filter (· ≠ m)) (hothers : ∀ j, j ≠ i → holds' j = holds j) :
    Owned (held.filter (· ≠ m)) holds' := by
  have hmem : ∀ j k, k ∈ holds' j ↔ k ∈ holds j ∧ k ≠ m := by
    intro j k
    by_cases hj : j = i
    · subst hj
      rw [hself, List.mem_filter, decide_eq_true_eq]
    · rw [hothers j hj]
      refine ⟨fun hk => ⟨hk, ?_⟩, And.left⟩
      rintro rfl
      exact hj (h.exclusive j i k hk hm)
  constructor
  · intro k
    simp only [List.mem_filter, decide_eq_true_eq, h.mem_iff, hmem, exists_and_right]
  · intro j k m' hj hk
    exact h.exclusive j k m' ((hmem j m').mp hj).1 ((hmem k m').mp hk).1

end Rules

/-- No deadlock: when agents only wait for mutexes above those they hold, and whoever an agent
waits for has something to do, then some agent that has something to do need not wait. -/
theorem Owned.exists_ready {held : List μ} {holds : ι → List μ} (h : Owned held holds)
    {wants : ι → Option μ} {busy : ι → Prop} (rank : μ → ℕ) (top : ℕ) (htop : ∀ m, rank m < top)
    (hrank : ∀ i m, wants i = some m → ∀ k ∈ holds i, rank k < rank m)
    (hbusy : ∀ i m j, busy i → wants i = some m → m ∈ holds j → busy j) {i : ι} (hi : busy i) :
    ∃ j, busy j ∧ ∀ m, wants j = some m → m ∉ held := by
  by_contra hnone
  push Not at hnone
  -- the holder of the mutex that an agent waits for waits for one of a higher rank
  have hclimb : ∀ d j m, busy j → wants j = some m → m ∈ held → top - rank m = d → False := by
    intro d
    induction d using Nat.strongRecOn with
    | ind d ih =>
      intro j m hj hwants hm hd
      obtain ⟨k, hk⟩ := (h.mem_iff m).mp hm
      have hnext := hbusy j m k hj hwants hk
      obtain ⟨m', hwants', hheld⟩ := hnone k hnext
      have hlt := hrank k m' hwants' m hk
      have hbound := htop m'
      exact ih (top - rank m') (by omega) k m' hnext hwants' hheld rfl
  obtain ⟨m, hwants, hheld⟩ := hnone i hi
  exact hclimb _ i m hi hwants hheld rfl

/-! ## Blocks -/

/-- What blocks of items make one after the other, each item with the agent that wrote it. -/
def joined (blocks : List (ι × List β)) : List (ι × β) :=
  blocks.flatMap fun block => block.2.map (Prod.mk block.1)

theorem joined_concat (blocks : List (ι × List β)) (i : ι) (items : List β) :
    joined (blocks ++ [(i, items)]) = joined blocks ++ items.map (Prod.mk i) := by
  simp [joined]

/-- INTERNAL: an item of the blocks is an item of one of them, which stands there as a whole. -/
theorem exists_block {blocks : List (ι × List β)} {k : ℕ} {i : ι} {x : β}
    (h : (joined blocks)[k]? = some (i, x)) :
    ∃ items start j, (i, items) ∈ blocks ∧ k = start + j ∧ items[j]? = some x ∧
      ∀ (l : ℕ) (y : β), items[l]? = some y → (joined blocks)[start + l]? = some (i, y) := by
  induction blocks generalizing k with
  | nil => simp [joined] at h
  | cons block blocks ih =>
    have hjoined : joined (block :: blocks) = block.2.map (Prod.mk block.1) ++ joined blocks := rfl
    rw [hjoined] at h ⊢
    rcases Nat.lt_or_ge k block.2.length with hlt | hge
    · rw [List.getElem?_append_left (by simpa using hlt), List.getElem?_map] at h
      obtain ⟨y, hy, heq⟩ := Option.map_eq_some_iff.mp h
      obtain ⟨rfl, rfl⟩ := Prod.mk.inj heq
      refine ⟨block.2, 0, k, List.mem_cons_self, (Nat.zero_add k).symm, hy, fun l z hz => ?_⟩
      have hl := (List.getElem?_eq_some_iff.mp hz).1
      rw [Nat.zero_add, List.getElem?_append_left (by simpa using hl), List.getElem?_map, hz]
      rfl
    · rw [List.getElem?_append_right (by simpa using hge), List.length_map] at h
      obtain ⟨items, start, j, hmem, hk, hx, hall⟩ := ih h
      refine ⟨items, block.2.length + start, j, List.mem_cons_of_mem _ hmem, by omega, hx,
        fun l y hy => ?_⟩
      rw [List.getElem?_append_right (by simp; omega), List.length_map,
        show block.2.length + start + l - block.2.length = start + l by omega]
      exact hall l y hy

/-! ## What a mutex protects -/

/-- What the mutex `m` protects: `settled` when it is free, and `inside i` when agent `i` holds
it. -/
structure Guarded (m : μ) (held : List μ) (holds : ι → List μ) (settled : Prop)
    (inside : ι → Prop) : Prop where
  closed : m ∉ held → settled
  opened : ∀ i, m ∈ holds i → inside i

section Guards

variable {m : μ} {held held' : List μ} {holds holds' : ι → List μ} {settled settled' : Prop}
  {inside inside' : ι → Prop} {i : ι}

/-- INTERNAL: the mutex stays as it is, and so does what it protects. -/
theorem Guarded.congr (h : Guarded m held holds settled inside) (hheld : m ∈ held' ↔ m ∈ held)
    (hholds : ∀ j, m ∈ holds' j ↔ m ∈ holds j) (hsettled : settled → settled')
    (hinside : ∀ j, m ∈ holds j → inside j → inside' j) :
    Guarded m held' holds' settled' inside' := by
  constructor
  · intro hfree
    exact hsettled (h.closed fun hm => hfree (hheld.mpr hm))
  · intro j hj
    have hj' := (hholds j).mp hj
    exact hinside j hj' (h.opened j hj')

/-- The mutex is locked: its agent finds everything settled. -/
theorem Guarded.lock (h : Guarded m held holds settled inside) (howned : Owned held holds)
    (hfree : m ∉ held) (hothers : ∀ j, j ≠ i → holds' j = holds j) (hinside : settled → inside' i)
    (hheld : m ∈ held') : Guarded m held' holds' settled' inside' := by
  constructor
  · intro hfree'
    exact absurd hheld hfree'
  · intro j hj
    by_cases hji : j = i
    · subst hji
      exact hinside (h.closed hfree)
    · rw [hothers j hji] at hj
      exact absurd ((howned.mem_iff m).mpr ⟨j, hj⟩) hfree

/-- The agent that holds the mutex changes what it protects. -/
theorem Guarded.write (h : Guarded m held holds settled inside) (howned : Owned held holds)
    (hi : m ∈ holds i) (hinside : inside i → inside' i) :
    Guarded m held holds settled' inside' := by
  constructor
  · intro hfree
    exact absurd ((howned.mem_iff m).mpr ⟨i, hi⟩) hfree
  · intro j hj
    obtain rfl := howned.exclusive j i m hj hi
    exact hinside (h.opened j hi)

/-- The mutex is unlocked: its agent leaves everything settled. -/
theorem Guarded.unlock (h : Guarded m held holds settled inside) (howned : Owned held holds)
    (hi : m ∈ holds i) (hself : m ∉ holds' i) (hothers : ∀ j, j ≠ i → holds' j = holds j)
    (hsettled : inside i → settled') : Guarded m held' holds' settled' inside' := by
  constructor
  · intro _
    exact hsettled (h.opened i hi)
  · intro j hj
    by_cases hji : j = i
    · subst hji
      exact absurd hj hself
    · rw [hothers j hji] at hj
      exact absurd (howned.exclusive j i m hj hi) hji

end Guards

/-! ## What is written under a mutex -/

/-- The items that were written under the mutex `m` form whole blocks, and at the end those that
the agent which holds it has written since it locked it. -/
def Journal (whole : ι → List β → Prop) (m : μ) (held : List μ) (holds : ι → List μ)
    (written : ι → List β) (items : List (ι × β)) : Prop :=
  Guarded m held holds
    (∃ blocks, (∀ block ∈ blocks, whole block.1 block.2) ∧ items = joined blocks)
    fun i => ∃ blocks, (∀ block ∈ blocks, whole block.1 block.2) ∧
      items = joined blocks ++ (written i).map (Prod.mk i)

section Journals

variable {whole : ι → List β → Prop} {m : μ} {held held' : List μ} {holds holds' : ι → List μ}
  {written written' : ι → List β} {items : List (ι × β)} {i : ι}

theorem journal_nil : Journal whole m [] (fun _ => []) written ([] : List (ι × β)) :=
  ⟨fun _ => ⟨[], by simp, rfl⟩, fun i hi => by simp at hi⟩

/-- INTERNAL: more blocks count as whole. -/
theorem Journal.mono {whole' : ι → List β → Prop} (h : Journal whole m held holds written items)
    (hwhole : ∀ i block, whole i block → whole' i block) :
    Journal whole' m held holds written items := by
  refine Guarded.congr h Iff.rfl (fun _ => Iff.rfl) ?_ ?_
  · rintro ⟨blocks, hblocks, hitems⟩
    exact ⟨blocks, fun block hblock => hwhole _ _ (hblocks block hblock), hitems⟩
  · rintro j - ⟨blocks, hblocks, hitems⟩
    exact ⟨blocks, fun block hblock => hwhole _ _ (hblocks block hblock), hitems⟩

/-- INTERNAL: the mutex and what was written under it stay as they are. -/
theorem Journal.congr (h : Journal whole m held holds written items)
    (hheld : m ∈ held' ↔ m ∈ held) (hholds : ∀ j, m ∈ holds' j ↔ m ∈ holds j)
    (hwritten : ∀ j, m ∈ holds j → written' j = written j) :
    Journal whole m held' holds' written' items := by
  refine Guarded.congr h hheld hholds id fun j hj hinside => ?_
  rw [hwritten j hj]
  exact hinside

/-- The mutex is locked. -/
theorem Journal.lock (h : Journal whole m held holds written items) (howned : Owned held holds)
    (hfree : m ∉ held) (hothers : ∀ j, j ≠ i → holds' j = holds j) (hempty : written' i = [])
    (hheld : m ∈ held') : Journal whole m held' holds' written' items := by
  refine Guarded.lock h howned hfree hothers ?_ hheld
  rintro ⟨blocks, hwhole, hitems⟩
  exact ⟨blocks, hwhole, by rw [hempty, List.map_nil, List.append_nil, hitems]⟩

/-- The agent that holds the mutex writes something. -/
theorem Journal.write (h : Journal whole m held holds written items) (howned : Owned held holds)
    (hi : m ∈ holds i) {new : List β} (hwritten : written' i = written i ++ new) :
    Journal whole m held holds written' (items ++ new.map (Prod.mk i)) := by
  refine Guarded.write h howned hi ?_
  rintro ⟨blocks, hwhole, hitems⟩
  exact ⟨blocks, hwhole, by rw [hwritten, List.map_append, hitems, List.append_assoc]⟩

/-- The mutex is unlocked after a whole block. -/
theorem Journal.unlock (h : Journal whole m held holds written items) (howned : Owned held holds)
    (hi : m ∈ holds i) (hblock : whole i (written i)) (hself : m ∉ holds' i)
    (hothers : ∀ j, j ≠ i → holds' j = holds j) :
    Journal whole m held' holds' written' items := by
  refine Guarded.unlock h howned hi hself hothers ?_
  rintro ⟨blocks, hwhole, hitems⟩
  refine ⟨blocks ++ [(i, written i)], ?_, by rw [joined_concat, hitems]⟩
  intro block hmem
  rcases List.mem_append.mp hmem with hmem | hmem
  · exact hwhole block hmem
  · rw [List.mem_singleton.mp hmem]
    exact hblock

end Journals

end Comp30023.Library
