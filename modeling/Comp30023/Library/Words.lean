import Comp30023.Library.Lines

/-!
# Words are maximal

The words of a text are the pieces between its separators that are not empty. Seen from the
text, a word is a piece without separators that cannot be made longer on either side. Both
say the same: in the order of their positions, the maximal pieces are the words.
-/

set_option autoImplicit false

namespace Comp30023.Library

variable {α : Type} {sep : α → Bool}

/-- `word` stands in the text between `before` and `after`, has no separator in it and cannot be
made longer. -/
structure IsWord (sep : α → Bool) (text before word after : List α) : Prop where
  whole : text = before ++ (word ++ after)
  nonempty : word ≠ []
  free : ∀ c ∈ word, sep c = false
  left : ∀ c ∈ before.getLast?, sep c = true
  right : ∀ c ∈ after.head?, sep c = true

/-- INTERNAL: what stands before a word is empty or has a separator in it. -/
theorem IsWord.before_eq_nil {text before word after : List α}
    (h : IsWord sep text before word after) (hfree : ∀ c ∈ before, sep c = false) :
    before = [] := by
  by_contra hne
  have hsep := h.left _ (List.getLast?_eq_some_getLast hne)
  rw [hfree _ (List.getLast_mem hne)] at hsep
  cases hsep

/-- INTERNAL: a word behind a separator is a word of what comes behind the separator. -/
theorem isWord_cons {c : α} {text before word after : List α} (hc : sep c = true) :
    IsWord sep (c :: text) before word after ↔
      ∃ before', before = c :: before' ∧ IsWord sep text before' word after := by
  constructor
  · rintro ⟨hwhole, hne, hfree, hleft, hright⟩
    cases before with
    | nil =>
      obtain ⟨d, word, rfl⟩ := List.exists_cons_of_ne_nil hne
      rw [List.nil_append, List.cons_append, List.cons.injEq] at hwhole
      rw [hwhole.1, hfree d (by simp)] at hc
      cases hc
    | cons d before =>
      rw [List.cons_append, List.cons.injEq] at hwhole
      obtain ⟨rfl, rfl⟩ := hwhole
      refine ⟨before, rfl, rfl, hne, hfree, fun e he => hleft e ?_, hright⟩
      rw [List.getLast?_cons, Option.mem_def.mp he]
      rfl
  · rintro ⟨before', rfl, hwhole, hne, hfree, hleft, hright⟩
    refine ⟨by rw [hwhole, List.cons_append], hne, hfree, fun e he => ?_, hright⟩
    rw [List.getLast?_cons] at he
    cases hlast : before'.getLast? with
    | none =>
      obtain rfl : c = e := by simpa [hlast] using he
      exact hc
    | some d =>
      obtain rfl : d = e := by simpa [hlast] using he
      exact hleft d hlast

/-- INTERNAL: the only word of a text without separators. -/
theorem isWord_free {text before word after : List α} (hne : text ≠ [])
    (hfree : ∀ c ∈ text, sep c = false) :
    IsWord sep text before word after ↔ before = [] ∧ word = text ∧ after = [] := by
  constructor
  · intro h
    have hbefore : before = [] := h.before_eq_nil fun c hc => hfree c (by rw [h.whole]; simp [hc])
    subst hbefore
    cases after with
    | nil => simpa using h.whole.symm
    | cons c after =>
      have hsep := h.right c rfl
      rw [hfree c (by rw [h.whole]; simp)] at hsep
      cases hsep
  · rintro ⟨rfl, rfl, rfl⟩
    exact ⟨by simp, hne, hfree, by simp, by simp⟩

/-- INTERNAL: the words of a text that begins with a word that a separator ends. -/
theorem isWord_append {first rest before word after : List α} {c : α} (hne : first ≠ [])
    (hfree : ∀ c ∈ first, sep c = false) (hc : sep c = true) :
    IsWord sep (first ++ c :: rest) before word after ↔
      (before = [] ∧ word = first ∧ after = c :: rest) ∨
        ∃ before', before = first ++ before' ∧ IsWord sep (c :: rest) before' word after := by
  constructor
  · intro h
    rcases List.append_eq_append_iff.mp h.whole with ⟨mid, hbefore, hmid⟩ | ⟨mid, hfirst, hmid⟩
    · refine Or.inr ⟨mid, hbefore, hmid, h.nonempty, h.free, fun e he => h.left e ?_, h.right⟩
      rw [hbefore, List.getLast?_append, Option.mem_def.mp he]
      rfl
    · have hnil : before = [] := h.before_eq_nil fun d hd => hfree d (by rw [hfirst]; simp [hd])
      subst hnil
      rw [List.nil_append] at hfirst
      subst hfirst
      refine Or.inl ⟨rfl, ?_⟩
      rcases List.append_eq_append_iff.mp hmid with ⟨more, hmore, hafter⟩ | ⟨more, hword, hafter⟩
      · cases more with
        | nil => simp_all
        | cons d more =>
          have hsep := h.right d (by rw [hafter]; rfl)
          rw [hfree d (by rw [hmore]; simp)] at hsep
          cases hsep
      · cases more with
        | nil => simp_all
        | cons d more =>
          rw [List.cons_append, List.cons.injEq] at hafter
          rw [hafter.1, h.free d (by rw [hword]; simp)] at hc
          cases hc
  · rintro (⟨rfl, rfl, rfl⟩ | ⟨before', rfl, h⟩)
    · exact ⟨by simp, hne, hfree, by simp, by simpa using hc⟩
    · refine ⟨by rw [h.whole, List.append_assoc], h.nonempty, h.free, fun e he => ?_, h.right⟩
      obtain ⟨before'', rfl, -⟩ := (isWord_cons hc).mp h
      rw [List.getLast?_append, List.getLast?_cons, Option.some_or] at he
      exact h.left e (by rwa [List.getLast?_cons])

/-- The rule for a text that is read word by word: it is empty, begins with a separator, is one
word, or begins with a word that a separator ends. -/
theorem words_induction (sep : α → Bool) {P : List α → Prop} (nil : P [])
    (separator : ∀ c text, sep c = true → P text → P (c :: text))
    (last : ∀ word, word ≠ [] → (∀ c ∈ word, sep c = false) → P word)
    (word : ∀ word c text, word ≠ [] → (∀ c ∈ word, sep c = false) → sep c = true →
      P (c :: text) → P (word ++ c :: text))
    (text : List α) : P text := by
  induction hn : text.length using Nat.strong_induction_on generalizing text with
  | _ n ih =>
    cases text with
    | nil => exact nil
    | cons c text =>
      rw [List.length_cons] at hn
      cases hc : sep c with
      | true => exact separator c text hc (ih text.length (by omega) text rfl)
      | false =>
        -- the word at the front, and what comes behind it
        have hsplit := List.takeWhile_append_dropWhile (p := fun d => !sep d) (l := c :: text)
        have hfirst : (c :: text).takeWhile (fun d => !sep d) ≠ [] := by simp [hc]
        have hfree : ∀ d ∈ (c :: text).takeWhile (fun d => !sep d), sep d = false := fun d hd => by
          simpa using List.mem_takeWhile_imp hd
        have hhead := List.head?_dropWhile_not (fun d => !sep d) (c :: text)
        generalize (c :: text).takeWhile (fun d => !sep d) = first at hsplit hfirst hfree
        generalize (c :: text).dropWhile (fun d => !sep d) = tail at hsplit hhead
        cases tail with
        | nil =>
          rw [List.append_nil] at hsplit
          rw [← hsplit]
          exact last first hfirst hfree
        | cons d rest =>
          have hd : sep d = true := by simpa using hhead
          have hshort := List.length_pos_iff.mpr hfirst
          have hlength := congrArg List.length hsplit
          rw [List.length_append, List.length_cons (a := c)] at hlength
          rw [← hsplit]
          exact word first d rest hfirst hfree hd (ih (d :: rest).length (by omega) _ rfl)

/-- The words of a text are its maximal pieces without separators, in the order in which they
stand in the text. -/
theorem exists_occurrences (sep : α → Bool) (text : List α) :
    ∃ occurrences : List (List α × List α × List α),
      (∀ before word after,
        (before, word, after) ∈ occurrences ↔ IsWord sep text before word after) ∧
      (occurrences.Pairwise fun o o' => o.1.length < o'.1.length) ∧
      words sep text = occurrences.map fun o => o.2.1 := by
  induction text using words_induction sep with
  | nil =>
    refine ⟨[], fun before word after => ⟨by simp, ?_⟩, List.Pairwise.nil, rfl⟩
    intro h
    exact absurd (List.append_eq_nil_iff.mp (List.append_eq_nil_iff.mp h.whole.symm).2).1 h.nonempty
  | separator c text hc ih =>
    obtain ⟨occurrences, hmem, hsorted, hwords⟩ := ih
    refine ⟨occurrences.map fun o => (c :: o.1, o.2), ?_, ?_, ?_⟩
    · intro before word after
      rw [isWord_cons hc, List.mem_map]
      constructor
      · rintro ⟨⟨b, w, a⟩, ho, heq⟩
        cases heq
        exact ⟨b, rfl, (hmem b _ _).mp ho⟩
      · rintro ⟨b, rfl, h⟩
        exact ⟨(b, word, after), (hmem b word after).mpr h, rfl⟩
    · rw [List.pairwise_map]
      exact hsorted.imp fun h => by simpa using h
    · rw [words_cons text hc, hwords, List.map_map]
      rfl
  | last first hfirst hfree =>
    refine ⟨[([], first, [])], ?_, List.pairwise_singleton _ _, words_word hfirst hfree⟩
    intro before word after
    rw [isWord_free hfirst hfree]
    simp
  | word first c text hfirst hfree hc ih =>
    obtain ⟨occurrences, hmem, hsorted, hwords⟩ := ih
    refine ⟨([], first, c :: text) :: occurrences.map fun o => (first ++ o.1, o.2), ?_, ?_, ?_⟩
    · intro before word after
      rw [isWord_append hfirst hfree hc, List.mem_cons, List.mem_map]
      constructor
      · rintro (heq | ⟨⟨b, w, a⟩, ho, heq⟩)
        · cases heq
          exact Or.inl ⟨rfl, rfl, rfl⟩
        · cases heq
          exact Or.inr ⟨b, rfl, (hmem b _ _).mp ho⟩
      · rintro (⟨rfl, rfl, rfl⟩ | ⟨b, rfl, h⟩)
        · exact Or.inl rfl
        · exact Or.inr ⟨(b, word, after), (hmem b word after).mpr h, rfl⟩
    · rw [List.pairwise_cons, List.pairwise_map]
      refine ⟨?_, hsorted.imp fun h => by simpa using h⟩
      intro o ho
      obtain ⟨o', -, rfl⟩ := List.mem_map.mp ho
      have hlength := List.length_pos_iff.mpr hfirst
      simp only [List.length_nil, List.length_append]
      omega
    · rw [words_cons text hc] at hwords
      rw [words_append text hfirst hfree hc, hwords, List.map_cons, List.map_map]
      rfl

/-- INTERNAL: every word stands somewhere in the text. -/
theorem exists_isWord {text word : List α} (h : word ∈ words sep text) :
    ∃ before after, IsWord sep text before word after := by
  obtain ⟨occurrences, hmem, -, hwords⟩ := exists_occurrences sep text
  rw [hwords] at h
  obtain ⟨⟨before, word, after⟩, ho, rfl⟩ := List.mem_map.mp h
  exact ⟨before, after, (hmem before word after).mp ho⟩

/-- No word is longer than the text. -/
theorem length_le_of_mem_words {text word : List α} (h : word ∈ words sep text) :
    word.length ≤ text.length := by
  obtain ⟨before, after, hword⟩ := exists_isWord h
  have hlength := congrArg List.length hword.whole
  rw [List.length_append, List.length_append] at hlength
  omega

/-- A word is shorter than a text with a separator. -/
theorem length_lt_of_mem_words {text word : List α} {c : α} (h : word ∈ words sep text)
    (hmem : c ∈ text) (hc : sep c = true) : word.length < text.length := by
  obtain ⟨before, after, hword⟩ := exists_isWord h
  have hlength := congrArg List.length hword.whole
  rw [List.length_append, List.length_append] at hlength
  rw [hword.whole, List.mem_append, List.mem_append] at hmem
  rcases hmem with hmem | hmem | hmem
  · have hpos := List.length_pos_of_mem hmem
    omega
  · rw [hword.free c hmem] at hc
    cases hc
  · have hpos := List.length_pos_of_mem hmem
    omega

/-- There is a separator between two words. -/
theorem two_mul_length_words (sep : α → Bool) (text : List α) :
    2 * (words sep text).length ≤ text.length + 1 := by
  -- and one more if the text begins with a separator
  suffices h : 2 * (words sep text).length + (if text.head?.any sep then 1 else 0) ≤
      text.length + 1 by omega
  induction text using words_induction sep with
  | nil => exact Nat.zero_le _
  | separator c text hc ih =>
    simp only [words_cons text hc, List.head?_cons, Option.any_some, hc, if_true, List.length_cons]
    omega
  | last word hne hfree =>
    obtain ⟨d, word, rfl⟩ := List.exists_cons_of_ne_nil hne
    have hd := hfree d List.mem_cons_self
    rw [words_word hne hfree, List.length_singleton, List.head?_cons, Option.any_some, hd,
      List.length_cons, if_neg Bool.false_ne_true]
    omega
  | word word c text hne hfree hc ih =>
    obtain ⟨d, word, rfl⟩ := List.exists_cons_of_ne_nil hne
    have hd := hfree d List.mem_cons_self
    rw [words_cons text hc, List.head?_cons, Option.any_some, hc, List.length_cons,
      if_pos rfl] at ih
    rw [words_append text hne hfree hc, List.length_cons, List.length_append, List.length_cons,
      List.length_cons, List.cons_append, List.head?_cons, Option.any_some, hd,
      if_neg Bool.false_ne_true]
    omega

end Comp30023.Library
