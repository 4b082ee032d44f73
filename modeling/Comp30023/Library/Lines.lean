import Mathlib.Data.List.TakeWhile

/-!
# Lines and words

A stream is read line by line, where a reader gets no more than so many elements at a time, so
that long lines come in pieces; and a line is read word by word, where words are what stands
between separators. `linesOf` and `words` say what the lines of a stream and the words of a
line are; `takeLine` and `takeWord` are what a reader does.
-/

set_option autoImplicit false

namespace Comp30023.Library

variable {α : Type}

/-! ## Lines -/

section Lines

variable [DecidableEq α]

/-- The next line of a stream, with the `newline` it ends in, cut off after `n` elements, and
the rest of the stream. -/
def takeLine (newline : α) : ℕ → List α → List α × List α
  | 0, stream => ([], stream)
  | _ + 1, [] => ([], [])
  | n + 1, c :: stream =>
    if c = newline then ([c], stream)
    else
      let (line, rest) := takeLine newline n stream
      (c :: line, rest)

/-- The lines of a text, each with the `newline` it ends in; the last one may have none. -/
def linesOf (newline : α) : List α → List (List α)
  | [] => []
  | c :: text =>
    if c = newline then [c] :: linesOf newline text
    else
      match linesOf newline text with
      | [] => [[c]]
      | line :: lines => (c :: line) :: lines

/-- What a reader gets that takes no more than `n` elements of a line at a time; `room` is how
many it still takes this time. -/
def piecesOf (newline : α) (n : ℕ) : ℕ → List α → List (List α)
  | _, [] => []
  | room, c :: text =>
    if c = newline ∨ room ≤ 1 then [c] :: piecesOf newline n n text
    else
      match piecesOf newline n (room - 1) text with
      | [] => [[c]]
      | piece :: pieces => (c :: piece) :: pieces

variable {newline : α}

/-- INTERNAL: nothing is lost between the line and the rest. -/
theorem takeLine_append (newline : α) (n : ℕ) (text : List α) :
    (takeLine newline n text).1 ++ (takeLine newline n text).2 = text := by
  induction text generalizing n with
  | nil => cases n <;> rfl
  | cons c text ih =>
    cases n with
    | zero => rfl
    | succ n =>
      rw [takeLine]
      split
      · rfl
      · exact congrArg (c :: ·) (ih n)

/-- INTERNAL: no more is taken than there is room for. -/
theorem length_takeLine_le (newline : α) (n : ℕ) (text : List α) :
    (takeLine newline n text).1.length ≤ n := by
  induction text generalizing n with
  | nil => cases n <;> exact Nat.zero_le _
  | cons c text ih =>
    cases n with
    | zero => exact Nat.zero_le _
    | succ n =>
      rw [takeLine]
      split
      · exact Nat.succ_le_succ (Nat.zero_le _)
      · exact Nat.succ_le_succ (ih n)

/-- INTERNAL: something is taken from a text that is not empty. -/
theorem length_takeLine_lt {n : ℕ} {text : List α} (hn : 0 < n) (h : text ≠ []) :
    (takeLine newline n text).2.length < text.length := by
  induction text generalizing n with
  | nil => exact absurd rfl h
  | cons c text ih =>
    obtain ⟨n, rfl⟩ := Nat.exists_eq_add_one.mpr hn
    rw [takeLine]
    split
    · exact Nat.lt_succ_self _
    · rw [List.length_cons]
      cases n with
      | zero => simp [takeLine]
      | succ n =>
        by_cases htext : text = []
        · simp [takeLine, htext]
        · exact Nat.lt_succ_of_lt (ih (Nat.zero_lt_succ n) htext)

/-- INTERNAL: nothing is read of an empty text only. -/
theorem piecesOf_ne_nil (newline : α) {text : List α} (n room : ℕ) (h : text ≠ []) :
    piecesOf newline n room text ≠ [] := by
  cases text with
  | nil => exact absurd rfl h
  | cons c text =>
    unfold piecesOf
    split
    · exact List.cons_ne_nil _ _
    · split <;> exact List.cons_ne_nil _ _

/-- The pieces come from reading again and again. -/
theorem piecesOf_takeLine {text : List α} (n : ℕ) {room : ℕ} (hroom : 0 < room)
    (h : text ≠ []) :
    piecesOf newline n room text =
      (takeLine newline room text).1 ::
        piecesOf newline n n (takeLine newline room text).2 := by
  induction text generalizing room with
  | nil => exact absurd rfl h
  | cons c text ih =>
    obtain ⟨room, rfl⟩ := Nat.exists_eq_add_one.mpr hroom
    by_cases hc : c = newline
    · simp [piecesOf, takeLine, hc]
    · cases room with
      | zero => simp [piecesOf, takeLine, hc]
      | succ room =>
        by_cases htext : text = []
        · simp [piecesOf, takeLine, hc, htext]
        · have hmore : ¬(c = newline ∨ room + 1 + 1 ≤ 1) := by
            rintro (h | h)
            · exact hc h
            · omega
          have hnext := ih (Nat.zero_lt_succ room) htext
          rw [piecesOf, if_neg hmore, Nat.add_sub_cancel, hnext]
          simp only [takeLine, if_neg hc]

/-- INTERNAL: a text that is one line without a newline. -/
theorem linesOf_singleton {line : List α} (hne : line ≠ []) (h : newline ∉ line) :
    linesOf newline line = [line] := by
  induction line with
  | nil => exact absurd rfl hne
  | cons c line ih =>
    rw [List.mem_cons, not_or] at h
    rw [linesOf, if_neg (Ne.symm h.1)]
    by_cases hline : line = []
    · simp [hline, linesOf]
    · rw [ih hline h.2]

/-- INTERNAL: a text that begins with a line that a newline ends. -/
theorem linesOf_append {line : List α} (rest : List α) (h : newline ∉ line) :
    linesOf newline (line ++ newline :: rest) = (line ++ [newline]) :: linesOf newline rest := by
  induction line with
  | nil => simp [linesOf]
  | cons c line ih =>
    rw [List.mem_cons, not_or] at h
    rw [List.cons_append, linesOf, if_neg (Ne.symm h.1), ih h.2, List.cons_append]

/-- INTERNAL: a line is not empty, and has its newline at the end only. -/
theorem linesOf_line {text line : List α} (h : line ∈ linesOf newline text) :
    line ≠ [] ∧ newline ∉ line.dropLast := by
  induction text generalizing line with
  | nil => simp [linesOf] at h
  | cons c text ih =>
    unfold linesOf at h
    split at h
    case isTrue =>
      rw [List.mem_cons] at h
      rcases h with rfl | h
      · simp
      · exact ih h
    case isFalse hc =>
      split at h
      case h_1 =>
        rw [List.mem_singleton] at h
        simp [h]
      case h_2 first lines heq =>
        rw [heq] at ih
        rw [List.mem_cons] at h
        rcases h with rfl | h
        · have hfirst := ih List.mem_cons_self
          rw [List.dropLast_cons_of_ne_nil hfirst.1, List.mem_cons, not_or]
          exact ⟨List.cons_ne_nil _ _, Ne.symm hc, hfirst.2⟩
        · exact ih (List.mem_cons_of_mem _ h)

/-- INTERNAL: no element of a text is in none of its lines or in two. -/
theorem flatten_linesOf (newline : α) (text : List α) : (linesOf newline text).flatten = text := by
  induction text with
  | nil => rfl
  | cons c text ih =>
    unfold linesOf
    split
    · rw [List.flatten_cons, ih, List.singleton_append]
    · split
      case h_1 heq =>
        rw [heq] at ih
        rw [← ih]
        rfl
      case h_2 line lines heq =>
        rw [heq] at ih
        rw [← ih]
        rfl

/-- INTERNAL: a reader gets all of a text. -/
theorem flatten_piecesOf (newline : α) (n room : ℕ) (text : List α) :
    (piecesOf newline n room text).flatten = text := by
  induction text generalizing room with
  | nil => rfl
  | cons c text ih =>
    unfold piecesOf
    split
    · rw [List.flatten_cons, ih, List.singleton_append]
    · have hrest := ih (room - 1)
      split
      case h_1 heq =>
        rw [heq] at hrest
        rw [← hrest]
        rfl
      case h_2 piece pieces heq =>
        rw [heq] at hrest
        rw [← hrest]
        rfl

/-- The pieces of a text are the pieces of its lines. -/
theorem piecesOf_linesOf (n room : ℕ) (text : List α) :
    piecesOf newline n room text =
      match linesOf newline text with
      | [] => []
      | line :: lines =>
        piecesOf newline n room line ++ lines.flatMap (piecesOf newline n n) := by
  induction text generalizing room with
  | nil => rfl
  | cons c text ih =>
    by_cases hc : c = newline
    · have htext := ih n
      simp only [piecesOf, linesOf, hc, true_or, if_true, List.cons_append, List.nil_append,
        List.cons.injEq, true_and]
      rw [htext]
      cases linesOf newline text <;> simp
    · simp only [piecesOf, linesOf, hc, false_or, if_false]
      cases hlines : linesOf newline text with
      | nil =>
        have htext : ∀ room, piecesOf newline n room text = [] := by
          intro room
          rw [ih room, hlines]
        simp [htext, piecesOf]
      | cons line lines =>
        have htext : ∀ room, piecesOf newline n room text =
            piecesOf newline n room line ++ lines.flatMap (piecesOf newline n n) := by
          intro room
          rw [ih room, hlines]
        have hline : line ≠ [] :=
          (linesOf_line (hlines ▸ List.mem_cons_self : line ∈ linesOf newline text)).1
        simp only [htext, piecesOf, hc, false_or]
        split
        · rw [List.cons_append]
        · obtain ⟨piece, pieces, hpieces⟩ :=
            List.exists_cons_of_ne_nil (piecesOf_ne_nil newline n (room - 1) hline)
          simp only [hpieces, List.cons_append]

/-- INTERNAL: the same for a reader that begins a line. -/
theorem piecesOf_flatMap (n : ℕ) (text : List α) :
    piecesOf newline n n text = (linesOf newline text).flatMap (piecesOf newline n n) := by
  rw [piecesOf_linesOf]
  cases linesOf newline text <;> simp

/-- INTERNAL: a line that is short enough is read in one piece. -/
theorem piecesOf_line {line : List α} (n : ℕ) {room : ℕ} (h : line ≠ [])
    (hline : newline ∉ line.dropLast) (hlength : line.length ≤ room) :
    piecesOf newline n room line = [line] := by
  induction line generalizing room with
  | nil => exact absurd rfl h
  | cons c line ih =>
    cases line with
    | nil => simp [piecesOf]
    | cons d line =>
      rw [List.dropLast_cons_of_ne_nil (List.cons_ne_nil d line), List.mem_cons, not_or] at hline
      rw [List.length_cons] at hlength
      have hmore : ¬(c = newline ∨ room ≤ 1) := by
        rintro (hc | hroom)
        · exact hline.1 hc.symm
        · rw [List.length_cons] at hlength
          omega
      have hrest := ih (List.cons_ne_nil d line) hline.2 (by omega : _ ≤ room - 1)
      rw [piecesOf, if_neg hmore, hrest]

end Lines

/-! ## Words -/

section Words

variable (sep : α → Bool)

/-- The words of a text: what stands between separators and is not empty. -/
def words (text : List α) : List (List α) := (text.splitOnP sep).filter (· ≠ [])

/-- The next word of a text, and what comes after the separator behind it. -/
def takeWord (text : List α) : Option (List α × List α) :=
  let text := text.dropWhile sep
  if text = [] then none
  else some (text.takeWhile (! sep ·), (text.dropWhile (! sep ·)).drop 1)

variable {sep}

/-- INTERNAL: a separator is no part of a word. -/
theorem words_cons {c : α} (text : List α) (hc : sep c = true) :
    words sep (c :: text) = words sep text := by
  simp [words, List.splitOnP_cons_eq_if_modifyHead, hc]

/-- INTERNAL: a text of one word. -/
theorem words_word {word : List α} (hne : word ≠ []) (h : ∀ c ∈ word, sep c = false) :
    words sep word = [word] := by
  simp [words, List.splitOnP_eq_singleton h, hne]

/-- INTERNAL: a word that a separator ends. -/
theorem words_append {word : List α} {c : α} (rest : List α) (hne : word ≠ [])
    (h : ∀ c ∈ word, sep c = false) (hc : sep c = true) :
    words sep (word ++ c :: rest) = word :: words sep rest := by
  simp [words, List.splitOnP_append_cons_of_forall_mem h c hc, hne]

/-- INTERNAL: separators before the first word. -/
theorem words_dropWhile (text : List α) : words sep (text.dropWhile sep) = words sep text := by
  induction text with
  | nil => rfl
  | cons c text ih =>
    cases hc : sep c with
    | false => rw [List.dropWhile_cons_of_neg (by simp [hc])]
    | true => rw [List.dropWhile_cons_of_pos hc, words_cons text hc, ih]

/-- INTERNAL: what is left when separators are dropped begins with a word. -/
theorem takeWhile_dropWhile_ne_nil {text : List α} (h : text.dropWhile sep ≠ []) :
    (text.dropWhile sep).takeWhile (! sep ·) ≠ [] := by
  have hhead := List.head_dropWhile_not sep h
  obtain ⟨c, rest, heq⟩ := List.exists_cons_of_ne_nil h
  simp only [heq, List.head_cons] at hhead ⊢
  simp [hhead]

/-- The words come from taking the next one again and again. -/
theorem words_takeWord (text : List α) :
    words sep text =
      match takeWord sep text with
      | none => []
      | some (word, rest) => word :: words sep rest := by
  rw [← words_dropWhile]
  unfold takeWord
  by_cases h : text.dropWhile sep = []
  · simp [h, words]
  · simp only [h, if_false]
    have hword := takeWhile_dropWhile_ne_nil h
    generalize text.dropWhile sep = text at hword
    have hnot : ∀ c ∈ text.takeWhile (! sep ·), sep c = false := by
      intro c hc
      simpa using List.mem_takeWhile_imp hc
    cases hrest : text.dropWhile (! sep ·) with
    | nil =>
      have htext : text.takeWhile (! sep ·) = text := by
        simpa [hrest] using List.takeWhile_append_dropWhile (p := (! sep ·)) (l := text)
      rw [htext] at hnot hword ⊢
      rw [words_word hword hnot, List.drop_nil]
      rfl
    | cons c rest =>
      have hc : sep c = true := by
        have := List.head_dropWhile_not (! sep ·) (l := text) (by simp [hrest])
        simpa [hrest] using this
      have htext : text.takeWhile (! sep ·) ++ c :: rest = text := by
        rw [← hrest, List.takeWhile_append_dropWhile]
      have hwords := words_append rest hword hnot hc
      rw [htext] at hwords
      exact hwords

end Words

end Comp30023.Library
