import Comp30023.Interface.ShellStrings
import Comp30023.Library.Outcome
import Comp30023.Library.Words

/-!
# The string tokens of a line

`strsplit` copies what stands between two delimiters into a string of its own and collects the
strings in an array that is doubled when it is full. The array always has one element more than
`maxstrarraylen`, so that the null pointer at the end finds room however many tokens there are.
-/

set_option autoImplicit false

namespace Comp30023.Analysis

open Comp30023.Library Comp30023.Model Comp30023.Interface

variable {before token text tail : List UInt8} {delimiter : UInt8} {split : Split}
  {tokens : List (List UInt8)}

/-! ## One token -/

/-- INTERNAL: the end of the token is found: it is before the next delimiter, or where the
string ends.
SOURCE: my-shell.c:217-227 -/
theorem endOfToken_spec (before : List UInt8) {room : ℕ} (hfree : ∀ c ∈ token, (c == delimiter) = false)
    (hroom : room = token.length ∨ token.length < room ∧ tail.head? = some delimiter) :
    endOfToken (before ++ (token ++ tail)) delimiter room before.length =
      .ok (before.length + token.length) := by
  induction token generalizing before room with
  | nil =>
    rcases hroom with rfl | ⟨hlt, hhead⟩
    · rfl
    · obtain ⟨tail, rfl⟩ := List.head?_eq_some_iff.mp hhead
      obtain ⟨room, rfl⟩ := Nat.exists_eq_add_one.mpr (Nat.zero_lt_of_lt hlt)
      simp only [endOfToken, List.nil_append, loadAt_append before _ _ rfl, bind, Except.bind,
        if_true]
      rfl
  | cons c token ih =>
    obtain ⟨room, rfl⟩ : ∃ m, room = m + 1 := by
      rw [List.length_cons] at hroom
      exact ⟨room - 1, by omega⟩
    have hc : ¬ c = delimiter := by simpa using hfree c List.mem_cons_self
    have hroom' : room = token.length ∨ token.length < room ∧ tail.head? = some delimiter := by
      simpa using hroom
    have hrest := ih (before ++ [c]) (fun d hd => hfree d (List.mem_cons_of_mem _ hd)) hroom'
    simp only [List.append_assoc, List.singleton_append, List.length_append, List.length_cons,
      List.length_nil, Nat.zero_add] at hrest
    simp only [endOfToken, List.cons_append, loadAt_append before _ _ rfl, bind, Except.bind,
      if_neg hc, hrest, List.length_cons]
    rw [Nat.add_assoc, Nat.add_comm 1]

/-- INTERNAL: the characters of a token are copied one by one.
SOURCE: my-shell.c:237-240 -/
theorem copyLoop_spec (before copied token tail : List UInt8) (unused : List (Option UInt8)) :
    copyLoop (before ++ (copied ++ (token ++ tail))) before.length token.length copied.length
        (copied.map some ++ (freshArray UInt8 token.length ++ unused)) =
      .ok ((copied ++ token).map some ++ unused) := by
  induction token generalizing copied with
  | nil => simp [copyLoop, freshArray]
  | cons c token ih =>
    have hload : loadAt (before ++ (copied ++ c :: (token ++ tail)))
        (before.length + copied.length) = .ok c := by
      rw [← List.append_assoc]
      exact loadAt_append _ _ _ (by simp)
    have hstore : storeAt (copied.map some ++ (freshArray UInt8 (token.length + 1) ++ unused))
        copied.length (some c) =
          .ok (copied.map some ++ some c :: (freshArray UInt8 token.length ++ unused)) := by
      rw [freshArray, List.replicate_succ, List.cons_append]
      exact storeAt_append _ _ _ _ (by simp)
    have hrest := ih (copied ++ [c])
    simp only [List.append_assoc, List.singleton_append, List.length_append, List.length_cons,
      List.length_nil, Nat.zero_add, List.map_append, List.map_cons, List.map_nil] at hrest
    simp only [copyLoop, List.length_cons, List.cons_append, hload, bind, Except.bind, hstore,
      hrest, List.map_append, List.map_cons, List.append_assoc]

/-- A string token is copied with all its characters, and a null byte behind them.
SOURCE: my-shell.c:229-241 -/
theorem copyToken_spec (before token tail : List UInt8) (hshort : token.length < intMax) :
    copyToken (before ++ (token ++ tail)) before.length token.length =
      .ok ((token ++ [0]).map some) := by
  have hcopy := copyLoop_spec before [] token tail [none]
  have hfresh : freshArray UInt8 (token.length + 1) = freshArray UInt8 token.length ++ [none] :=
    List.replicate_succ'
  simp only [List.nil_append, List.map_nil, List.length_nil] at hcopy
  simp only [copyToken, intResult_ok (Nat.succ_le_of_lt hshort), hfresh, hcopy, bind, Except.bind]
  rw [storeAt_append _ _ _ _ (by simp)]
  simp

/-! ## The array of tokens -/

/-- The elements of the array that point to these tokens. -/
def storedTokens (tokens : List (List UInt8)) : List (Option StrPointer) :=
  tokens.map fun token => some (.str ((token ++ [0]).map some))

/-- The array begins with these tokens and has room for one element more than
`maxstrarraylen`. -/
structure Collected (split : Split) (tokens : List (List UInt8)) : Prop where
  array : split.strarray =
    storedTokens tokens ++ freshArray StrPointer (split.maxstrarraylen + 1 - tokens.length)
  count : split.strarraylen = tokens.length
  bound : tokens.length ≤ split.maxstrarraylen
  doubled : ∃ j, split.maxstrarraylen = 2 ^ j

/-- INTERNAL: nothing is collected when the loop is entered.
SOURCE: my-shell.c:183-201 -/
theorem collected_initial : Collected Split.initial [] :=
  ⟨rfl, rfl, Nat.zero_le _, 0, rfl⟩

/-- INTERNAL: a full array is doubled, if it has not `2 ^ 30` elements yet.
SOURCE: my-shell.c:247-256 -/
theorem Collected.reserve (h : Collected split tokens) (hroom : tokens.length < 2 ^ 30) :
    ∃ split', split.reserve = .ok split' ∧ Collected split' tokens ∧
      tokens.length < split'.maxstrarraylen ∧ split'.strarrayi = split.strarrayi := by
  have hbound := h.bound
  unfold Split.reserve
  split
  case isTrue hfull =>
    rw [h.count] at hfull
    obtain ⟨j, hmax⟩ := h.doubled
    have hj : j < 30 := by
      have hlt : 2 ^ j < 2 ^ 30 := by omega
      exact (Nat.pow_lt_pow_iff_right (by decide)).mp hlt
    have hlarge : 2 ^ (j + 1) ≤ 2 ^ 30 := Nat.pow_le_pow_right (by decide) hj
    have hpos : 0 < 2 ^ j := Nat.two_pow_pos j
    rw [pow_succ, ← hmax] at hlarge
    rw [← hmax] at hpos
    have hdouble : split.maxstrarraylen * strsplitStrArrayLenGrowFactor ≤ intMax := by
      simp only [strsplitStrArrayLenGrowFactor, intMax]
      omega
    have hsize : split.maxstrarraylen * strsplitStrArrayLenGrowFactor + 1 ≤ intMax := by
      simp only [strsplitStrArrayLenGrowFactor, intMax]
      omega
    simp only [intResult_ok hdouble, intResult_ok hsize, bind, Except.bind]
    refine ⟨_, rfl, ⟨?_, h.count, ?_, j + 1, ?_⟩, ?_, rfl⟩
    · simp only [h.array, List.append_assoc, freshArray, storedTokens, List.length_append,
        List.length_map, List.length_replicate, List.append_cancel_left_eq,
        List.replicate_append_replicate, strsplitStrArrayLenGrowFactor]
      congr 1
      omega
    · simp only [strsplitStrArrayLenGrowFactor]
      omega
    · simp only [strsplitStrArrayLenGrowFactor, hmax, pow_succ]
    · simp only [strsplitStrArrayLenGrowFactor]
      omega
  case isFalse hspace =>
    rw [h.count] at hspace
    exact ⟨split, rfl, h, by omega, rfl⟩

/-- INTERNAL: a token is stored.
SOURCE: my-shell.c:258-260 -/
theorem Collected.store (h : Collected split tokens) (hroom : tokens.length < split.maxstrarraylen)
    (token : List UInt8) :
    ∃ strarray, storeAt split.strarray split.strarraylen (some (.str ((token ++ [0]).map some))) =
        .ok strarray ∧
      Collected { split with strarray := strarray, strarraylen := split.strarraylen + 1 }
        (tokens ++ [token]) := by
  have hfresh : freshArray StrPointer (split.maxstrarraylen + 1 - tokens.length) =
      none :: freshArray StrPointer (split.maxstrarraylen + 1 - (tokens.length + 1)) := by
    rw [freshArray, freshArray, ← List.replicate_succ]
    congr 1
    omega
  refine ⟨storedTokens tokens ++ some (.str ((token ++ [0]).map some)) ::
    freshArray StrPointer (split.maxstrarraylen + 1 - (tokens.length + 1)), ?_, ?_⟩
  · rw [h.array, hfresh, h.count]
    exact storeAt_append _ _ _ _ (by simp [storedTokens])
  · refine ⟨?_, ?_, ?_, h.doubled⟩
    · simp [storedTokens]
    · simp [h.count]
    · rw [List.length_append]
      exact hroom

/-- INTERNAL: the null pointer is stored.
SOURCE: my-shell.c:263-264 -/
theorem Collected.terminate (h : Collected split tokens) :
    ∃ unused, storeAt split.strarray split.strarraylen (some .null) =
      .ok (storedTokens tokens ++ some .null :: freshArray StrPointer unused) := by
  obtain ⟨unused, hunused⟩ : ∃ m, split.maxstrarraylen + 1 - tokens.length = m + 1 :=
    ⟨split.maxstrarraylen - tokens.length, by have := h.bound; omega⟩
  refine ⟨unused, ?_⟩
  rw [h.array, hunused, h.count, freshArray, List.replicate_succ]
  exact storeAt_append _ _ _ _ (by simp [storedTokens])

/-! ## The loop -/

/-- INTERNAL: a pass at a delimiter.
SOURCE: my-shell.c:204-209 -/
theorem splitPass_delimiter {origstrlen : ℕ} (hi : split.strarrayi = before.length)
    (hlt : before.length < origstrlen) :
    splitPass (before ++ delimiter :: tail) origstrlen delimiter split =
      .ok (.again { split with strarrayi := before.length + 1 }) := by
  simp only [splitPass, hi, if_pos hlt, loadAt_append before _ _ rfl, bind, Except.bind, if_true]

/-- INTERNAL: a pass at a token, which goes on behind it.
SOURCE: my-shell.c:211-260 -/
theorem splitPass_token (tail : List UInt8) (origstrlen : ℕ) (h : Collected split tokens)
    (hi : split.strarrayi = before.length) (hroom : tokens.length < 2 ^ 30)
    (hshort : token.length < intMax) (hne : token ≠ [])
    (hfree : ∀ c ∈ token, (c == delimiter) = false)
    (hend : before.length + token.length = origstrlen ∨
      before.length + token.length < origstrlen ∧ tail.head? = some delimiter) :
    ∃ split', splitPass (before ++ (token ++ tail)) origstrlen delimiter split =
        .ok (.again split') ∧
      Collected split' (tokens ++ [token]) ∧ split'.strarrayi = before.length + token.length := by
  have hpos := List.length_pos_iff.mpr hne
  have hlt : before.length < origstrlen := by omega
  have hrest : origstrlen - before.length = token.length ∨
      token.length < origstrlen - before.length ∧ tail.head? = some delimiter := by
    rcases hend with hend | ⟨hend, hhead⟩
    · left
      omega
    · exact Or.inr ⟨by omega, hhead⟩
  have hfound := endOfToken_spec before hfree hrest
  have hcopy : copyToken (before ++ (token ++ tail)) before.length
      (before.length + token.length - before.length) = .ok ((token ++ [0]).map some) := by
    rw [Nat.add_sub_cancel_left]
    exact copyToken_spec before token tail hshort
  -- what is collected does not depend on the index
  have hmoved : Collected { split with strarrayi := before.length + token.length } tokens :=
    ⟨h.array, h.count, h.bound, h.doubled⟩
  obtain ⟨split₁, hreserve, h₁, hspace, hindex⟩ := hmoved.reserve hroom
  obtain ⟨strarray, hstore, hcollected⟩ := h₁.store hspace token
  refine ⟨_, ?_, hcollected, hindex⟩
  obtain ⟨c, rest, rfl⟩ := List.exists_cons_of_ne_nil hne
  have hc : ¬ c = delimiter := by simpa using hfree c List.mem_cons_self
  have hload : loadAt (before ++ (c :: rest ++ tail)) before.length = .ok c :=
    loadAt_append before c _ rfl
  simp only [splitPass, hi, if_pos hlt, hload, bind, Except.bind, if_neg hc, hfound, hcopy,
    hreserve, hstore]

/-- INTERNAL: the pass at the end of the string.
SOURCE: my-shell.c:202 -/
theorem splitPass_end (origstr : List UInt8) {origstrlen : ℕ}
    (hi : split.strarrayi = origstrlen) :
    splitPass origstr origstrlen delimiter split = .ok (.done split) := by
  simp only [splitPass, hi, Nat.lt_irrefl, if_false]

/-- From any index on at which no token has begun, the loop collects the tokens of the rest of
the string, in no more passes than this rest has characters, and one.
SOURCE: my-shell.c:202-261 -/
theorem loop_splitPass (delimiter : UInt8) (before text tail : List UInt8)
    (h : Collected split tokens) (hi : split.strarrayi = before.length)
    (hmany : tokens.length + (words (· == delimiter) text).length ≤ 2 ^ 30)
    (hshort : ∀ word ∈ words (· == delimiter) text, word.length < intMax) :
    ∃ n split', n ≤ text.length + 1 ∧
      loop (splitPass (before ++ (text ++ tail)) (before.length + text.length) delimiter) n split =
        .ok (.done split') ∧
      Collected split' (tokens ++ words (· == delimiter) text) := by
  induction text using words_induction (· == delimiter) generalizing before split tokens with
  | nil =>
    refine ⟨1, split, by simp, ?_, by simpa [words] using h⟩
    simp only [loop, splitPass_end _ hi, List.length_nil, Nat.add_zero]
  | separator c text hc ih =>
    obtain rfl : c = delimiter := by simpa using hc
    have hmoved : Collected { split with strarrayi := before.length + 1 } tokens :=
      ⟨h.array, h.count, h.bound, h.doubled⟩
    rw [@words_cons _ (· == c) _ text hc] at hmany hshort
    obtain ⟨n, split', hn, hloop, hcollected⟩ :=
      ih (before ++ [c]) hmoved (by simp) hmany hshort
    refine ⟨n + 1, split', by simpa using hn, ?_, ?_⟩
    · have hpass : splitPass (before ++ c :: (text ++ tail)) (before.length + (c :: text).length) c
          split = _ := splitPass_delimiter hi (by simp)
      rw [List.cons_append]
      simp only [loop, hpass]
      simpa [Nat.add_assoc, Nat.add_comm 1] using hloop
    · rwa [@words_cons _ (· == c) _ text hc]
  | last token hne hfree =>
    rw [words_word hne hfree] at hmany hshort
    rw [List.length_singleton] at hmany
    obtain ⟨split', hpass, hcollected, hi'⟩ :=
      splitPass_token tail (before.length + token.length) h hi (by omega)
        (hshort token List.mem_cons_self) hne hfree (Or.inl rfl)
    have hpos := List.length_pos_iff.mpr hne
    refine ⟨2, split', by omega, ?_, ?_⟩
    · simp only [loop, hpass, splitPass_end _ hi']
    · rwa [words_word hne hfree]
  | word token c text hne hfree hc ih =>
    obtain rfl : c = delimiter := by simpa using hc
    rw [@words_append _ (· == c) _ _ text hne hfree hc] at hmany hshort
    rw [List.length_cons] at hmany
    obtain ⟨split₁, hpass, hcollected₁, hi₁⟩ :=
      splitPass_token (c :: text ++ tail) (before.length + (token ++ c :: text).length) h hi
        (by omega) (hshort token List.mem_cons_self) hne hfree (by simp)
    have hwords := @words_cons _ (· == c) _ text hc
    obtain ⟨n, split', hn, hloop, hcollected⟩ := ih (before ++ token) hcollected₁
      (by simpa using hi₁) (by rw [hwords, List.length_append, List.length_singleton]; omega)
      (by rw [hwords]; exact fun word hword => hshort word (List.mem_cons_of_mem _ hword))
    have hpos := List.length_pos_iff.mpr hne
    refine ⟨n + 1, split', ?_, ?_, ?_⟩
    · rw [List.length_append]
      omega
    · rw [List.append_assoc]
      simp only [loop, hpass]
      simpa [Nat.add_assoc] using hloop
    · rw [@words_cons _ (· == c) _ text hc] at hcollected
      rw [@words_append _ (· == c) _ _ text hne hfree hc]
      simpa using hcollected

/-- INTERNAL: a doubled array has one element more than `maxstrarraylen`.
SOURCE: my-shell.c:247-256 -/
theorem reserve_capacity {split' : Split} (h : split.strarray.length = split.maxstrarraylen + 1)
    (hreserve : split.reserve = .ok split') :
    split'.strarray.length = split'.maxstrarraylen + 1 := by
  unfold Split.reserve at hreserve
  split at hreserve
  · obtain ⟨maxstrarraylen, hmax, hreserve⟩ := bind_eq_ok hreserve
    obtain ⟨size, hsize, hreserve⟩ := bind_eq_ok hreserve
    cases hreserve
    obtain ⟨-, rfl⟩ := intResult_eq_ok hmax
    obtain ⟨-, rfl⟩ := intResult_eq_ok hsize
    simp only [List.length_append, freshArray, List.length_replicate, h,
      strsplitStrArrayLenGrowFactor]
    omega
  · cases hreserve
    exact h

/-- INTERNAL: the array has one element more than `maxstrarraylen` after every pass that began
with such an array.
SOURCE: my-shell.c:202-261 -/
theorem splitPass_capacity {origstr : List UInt8} {origstrlen : ℕ} {split' : Split}
    (h : split.strarray.length = split.maxstrarraylen + 1)
    (hpass : splitPass origstr origstrlen delimiter split = .ok (.again split')) :
    split'.strarray.length = split'.maxstrarraylen + 1 := by
  unfold splitPass at hpass
  split at hpass
  case isTrue =>
    obtain ⟨c, -, hpass⟩ := bind_eq_ok hpass
    split at hpass
    · cases hpass
      exact h
    · obtain ⟨strarrayj, -, hpass⟩ := bind_eq_ok hpass
      obtain ⟨strtoken, -, hpass⟩ := bind_eq_ok hpass
      obtain ⟨split₁, hreserve, hpass⟩ := bind_eq_ok hpass
      obtain ⟨strarray, hstore, hpass⟩ := bind_eq_ok hpass
      cases hpass
      rw [length_of_storeAt hstore]
      refine reserve_capacity ?_ hreserve
      exact h
  case isFalse => cases hpass

/-! ## The limits of `int` -/

/-- INTERNAL: a string that is not too long for `strlen`, and that is not a single token of the
greatest length, is split into its words.
SOURCE: my-shell.c:179-267 -/
theorem strsplit_words {s : List UInt8} (rest : List UInt8) (hs : 0 ∉ s)
    (hfits : s.length < intMax ∨ s.length = intMax ∧ delimiter ∈ s) :
    ∃ unused, strsplit (s ++ 0 :: rest) delimiter =
      .ok (storedTokens (words (· == delimiter) s) ++ some .null :: freshArray StrPointer unused) := by
  have hlength : s.length ≤ intMax := by omega
  have hmany : (words (· == delimiter) s).length ≤ 2 ^ 30 := by
    have htwo := two_mul_length_words (· == delimiter) s
    simp only [intMax] at hlength
    omega
  have hshort : ∀ word ∈ words (· == delimiter) s, word.length < intMax := by
    intro word hword
    rcases hfits with hlt | ⟨heq, hmem⟩
    · exact Nat.lt_of_le_of_lt (length_le_of_mem_words hword) hlt
    · exact heq ▸ length_lt_of_mem_words hword hmem (by simp)
  obtain ⟨n, split, hn, hloop, hcollected⟩ :=
    loop_splitPass delimiter [] s (0 :: rest) collected_initial rfl
      (by simpa using hmany) hshort
  obtain ⟨unused, hterminate⟩ := hcollected.terminate
  refine ⟨unused, ?_⟩
  simp only [List.nil_append, List.length_nil, Nat.zero_add] at hloop hterminate
  simp only [strsplit, strlen_string rest hs hlength, bind, Except.bind, loop_done_mono hloop hn,
    hterminate]

/-- INTERNAL: a string that is a single token of the greatest length.
SOURCE: my-shell.c:215-231 -/
theorem splitPass_longest {s : List UInt8} (rest : List UInt8) (hlength : s.length = intMax)
    (hfree : delimiter ∉ s) :
    splitPass (s ++ 0 :: rest) s.length delimiter Split.initial = .error .intOverflow := by
  have hdelimiter : ∀ c ∈ s, (c == delimiter) = false := by
    intro c hc
    rw [beq_eq_false_iff_ne]
    rintro rfl
    exact hfree hc
  have hfound : endOfToken ([] ++ (s ++ 0 :: rest)) delimiter s.length ([] : List UInt8).length =
      .ok (([] : List UInt8).length + s.length) := endOfToken_spec [] hdelimiter (Or.inl rfl)
  have hne : s ≠ [] := by
    rintro rfl
    cases hlength
  obtain ⟨c, s', rfl⟩ := List.exists_cons_of_ne_nil hne
  have hc : ¬ c = delimiter := by simpa using hdelimiter c List.mem_cons_self
  simp only [List.nil_append, List.length_nil, Nat.zero_add, List.cons_append,
    List.length_cons] at hfound hlength
  simp only [splitPass, Split.initial, List.length_cons, Nat.zero_lt_succ, if_true,
    List.cons_append, loadAt, List.getElem?_cons_zero, bind, Except.bind, if_neg hc,
    Nat.sub_zero]
  simp only [hfound, copyToken, intResult_error (Nat.lt_succ_of_le (Nat.le_of_eq hlength.symm)),
    bind, Except.bind]

/-- INTERNAL: a number leaves the type `int` in all other strings.
SOURCE: my-shell.c:108-119, 181, 229-231 -/
theorem strsplit_overflow {s : List UInt8} (rest : List UInt8) (hs : 0 ∉ s)
    (hlong : ¬ (s.length < intMax ∨ s.length = intMax ∧ delimiter ∈ s)) :
    strsplit (s ++ 0 :: rest) delimiter = .error .intOverflow := by
  rw [not_or, not_and] at hlong
  obtain ⟨hle, hfree⟩ := hlong
  by_cases hlast : s.length = intMax
  · have hpass := splitPass_longest rest hlast (hfree hlast)
    simp only [strsplit, strlen_string rest hs (Nat.le_of_eq hlast), bind, Except.bind, loop, hpass]
  · have hlen : strlen (s ++ 0 :: rest) = .error .intOverflow :=
      strlenLoop_overflow rest hs (Nat.zero_le _) (by omega)
    rw [strsplit, hlen]
    rfl

/-- `strsplit` returns the array of the maximal pieces of the string that are not empty and have no
delimiter in them, in the order in which they stand in the string, each a string of its own that a
null byte ends; a null pointer stands behind them. These are the pieces between delimiters without
the empty ones. At the top of the loop the array has one element more than `maxstrarraylen`, and no
store is outside of it. -/
def SplitsMaximally (s : List UInt8) (delimiter : UInt8) (rest : List UInt8) : Prop :=
  ∃ (occurrences : List (List UInt8 × List UInt8 × List UInt8)) (unused : ℕ),
    strsplit (s ++ 0 :: rest) delimiter =
      .ok (storedTokens (occurrences.map fun o => o.2.1) ++
        some .null :: freshArray StrPointer unused) ∧
    (∀ before token after, (before, token, after) ∈ occurrences ↔
      IsWord (· == delimiter) s before token after) ∧
    (occurrences.Pairwise fun o o' => o.1.length < o'.1.length) ∧
    (occurrences.map fun o => o.2.1) = (s.splitOn delimiter).filter (· ≠ []) ∧
    ∀ split, Reaches (splitPass (s ++ 0 :: rest) s.length delimiter) Split.initial split →
      split.strarray.length = split.maxstrarraylen + 1

/-- **The array of tokens.** For every string without null bytes, with a null byte behind it and
anything behind that, and every delimiter: `strsplit` returns the array of the maximal tokens if and
only if the string has fewer characters than the greatest `int`, or just as many and a delimiter
among them. In all other cases an `int` overflows.
SOURCE: my-shell.c:108-119, 179-267 -/
theorem strsplit_maximal_iff {s : List UInt8} (delimiter : UInt8) (rest : List UInt8)
    (hs : 0 ∉ s) :
    SplitsMaximally s delimiter rest ↔
      s.length < intMax ∨ s.length = intMax ∧ delimiter ∈ s := by
  constructor
  · rintro ⟨occurrences, unused, hsplit, -⟩
    by_contra hlong
    rw [strsplit_overflow rest hs hlong] at hsplit
    cases hsplit
  · intro hfits
    obtain ⟨occurrences, hmem, hsorted, hwords⟩ := exists_occurrences (· == delimiter) s
    obtain ⟨unused, hsplit⟩ := strsplit_words rest hs hfits
    rw [hwords] at hsplit
    refine ⟨occurrences, unused, hsplit, hmem, hsorted, ?_, ?_⟩
    · rw [← hwords]
      rfl
    · intro split hreach
      exact hreach.invariant (fun _ _ h hpass => splitPass_capacity h hpass) rfl

/-- INTERNAL: a line with delimiters before, between and behind its words.
SOURCE: my-shell.c:179-267 -/
theorem strsplit_maximal_iff_line : SplitsMaximally [32, 108, 115, 32, 32, 45, 108, 32] 32 [7] :=
  (strsplit_maximal_iff 32 [7] (by decide)).mpr (Or.inl (by decide))

/-- `2 ^ 31` characters are too many to be counted.
SOURCE: my-shell.c:108-119, 181 -/
theorem string_of_too_many_characters : ¬ SplitsMaximally (List.replicate (2 ^ 31) 97) 32 [] := by
  rintro ⟨occurrences, unused, hsplit, -⟩
  have hs : (0 : UInt8) ∉ List.replicate (2 ^ 31) 97 := fun hmem =>
    absurd (List.eq_of_mem_replicate hmem) (by decide)
  have hlong : ¬ ((List.replicate (2 ^ 31) (97 : UInt8)).length < intMax ∨
      (List.replicate (2 ^ 31) (97 : UInt8)).length = intMax ∧
        32 ∈ List.replicate (2 ^ 31) (97 : UInt8)) := by
    rw [List.length_replicate]
    rintro (hlt | ⟨heq, -⟩)
    · exact absurd hlt (by decide)
    · exact absurd heq (by decide)
  rw [strsplit_overflow [] hs hlong] at hsplit
  cases hsplit

end Comp30023.Analysis
