import Comp30023.Analysis.TheoremScan
import Comp30023.Analysis.TheoremSplit
import Comp30023.Model.ShellLoop

/-!
# What the shell runs

One pass through the loop of the shell takes a line from standard input. Its command is made of the
words up to the first null byte. A line without a command is passed over, and what was allocated for
it is lost; a line whose first word is `exit` ends the shell; any other command is run by a child.
The line is read whole, and what comes behind it is left in the stream, so that a run of the shell
is determined by the lines and by what `fork` does.
-/

set_option autoImplicit false

namespace Comp30023.Analysis

open Comp30023.Library Comp30023.Model Comp30023.Interface

variable {world : ShellWorld} {stream line rest : List UInt8} {lines : List (List UInt8)}
  {indeterminate : ℕ → UInt8} {scan scan' : Scan}

/-! ## Commands -/

/-- The words of a line up to the first null byte. -/
def commandOf (line : List UInt8) : List (List UInt8) := words (· == blank) (cString line)

/-- The commands of the lines that have one. -/
def commandsOf (lines : List (List UInt8)) : List (List (List UInt8)) :=
  (lines.map commandOf).filter (· ≠ [])

/-- How many of the lines have no command. -/
def blankLines (lines : List (List UInt8)) : ℕ := lines.countP (commandOf · = [])

/-- Lines as they stand in a stream. -/
def textOf (lines : List (List UInt8)) : List UInt8 := lines.flatMap (· ++ [newline])

/-- `strscan` can read the line. -/
def IsReadable (line : List UInt8) : Prop := newline ∉ line ∧ line.length < 2 ^ 30

instance (line : List UInt8) : Decidable (IsReadable line) := inferInstanceAs (Decidable (_ ∧ _))

/-- The shell comes to the last of these lines and ends there: it has run the commands of the other
ones, none of which is `exit`, and the last one has a command, which is `exit` or for which there
is no child. -/
structure EndsAt (world : ShellWorld) (stream : List UInt8) (lines : List (List UInt8))
    (line rest : List UInt8) : Prop where
  whole : stream = textOf lines ++ (line ++ newline :: rest)
  readable : ∀ l ∈ lines ++ [line], IsReadable l
  passed : ∀ l ∈ lines, (commandOf l).head? ≠ some exitCommand
  forked : ∀ i < (commandsOf lines).length, world.forks i = true
  command : commandOf line ≠ []
  ends : (commandOf line).head? = some exitCommand ∨
    world.forks (commandsOf lines).length = false

/-- The shell when it has passed these lines. -/
def Shell.behind (lines : List (List UInt8)) (stdin : List UInt8) : Shell :=
  { stdin := stdin
    prompts := lines.length
    children := commandsOf lines
    allocated := 2 * blankLines lines
    returned := none }

/-- The shell when it has ended at a line. -/
def Shell.ended (lines : List (List UInt8)) (line rest : List UInt8) : Shell :=
  { stdin := rest
    prompts := lines.length + 1
    children := commandsOf lines
    allocated := 2 * blankLines lines + ((commandOf line).length + 2)
    returned := some (if (commandOf line).head? = some exitCommand then 0 else 1) }

/-! ## Reading a line -/

/-- INTERNAL: a pass that ends the line has taken a byte from the stream.
SOURCE: my-shell.c:146-174 -/
theorem stdin_of_done (h : scanPass indeterminate scan = .ok (.done scan')) :
    scan'.stdin = scan.stdin.tail := by
  obtain ⟨scan₁, hreserve, h⟩ := bind_eq_ok h
  obtain ⟨scan₂, hread, h⟩ := bind_eq_ok h
  obtain ⟨c, -, h⟩ := bind_eq_ok h
  have hsame : scan₁.stdin = scan.stdin := by
    unfold Scan.reserve at hreserve
    split at hreserve
    · dsimp only at hreserve
      split at hreserve
      · cases hreserve
        rfl
      · cases hreserve
    · cases hreserve
      rfl
  have htail : scan₂.stdin = scan₁.stdin.tail := by
    unfold Scan.readByte at hread
    cases hstdin : scan₁.stdin with
    | nil =>
      rw [hstdin] at hread
      cases hread
      exact hstdin
    | cons d stdin =>
      rw [hstdin] at hread
      obtain ⟨s, -, hread⟩ := bind_eq_ok hread
      cases hread
      rfl
  split at h
  · obtain ⟨s, -, h⟩ := bind_eq_ok h
    cases h
    exact htail.trans (congrArg List.tail hsame)
  · cases h

/-- INTERNAL: every pass looks at one byte.
SOURCE: my-shell.c:146-174 -/
theorem slen_of_loop {n : ℕ}
    (h : loop (scanPass indeterminate) n (Scan.initial indeterminate stream) = .ok (.again scan)) :
    scan.slen = n ∧ Scanned stream indeterminate scan := by
  induction n generalizing scan with
  | zero =>
    cases h
    exact ⟨rfl, scanned_initial _ _⟩
  | succ n ih =>
    obtain ⟨scan₁, hloop, hpass⟩ := loop_succ_again h
    obtain ⟨hslen, hscanned⟩ := ih hloop
    refine ⟨?_, hscanned.again hpass⟩
    by_cases hlt : scan₁.slen < 2 ^ 30
    · by_cases hseen : seenAt stream indeterminate scan₁.slen = newline
      · obtain ⟨t, hdone, -⟩ := (hscanned.pass hlt).1 hseen
        simp [hdone] at hpass
      · obtain ⟨t, hagain, -, hsucc⟩ := (hscanned.pass hlt).2 hseen
        obtain rfl : t = scan := by simpa [hagain] using hpass
        rw [hsucc, hslen]
    · simp [hscanned.overflow (Nat.le_of_not_lt hlt)] at hpass

/-- `strscan` reads a line, and no more.
SOURCE: my-shell.c:133-177 -/
theorem strscan_line (indeterminate : ℕ → UInt8) (hline : IsReadable line) (rest : List UInt8) :
    ∃ unused, strscan indeterminate (line ++ newline :: rest) = .ok (line ++ 0 :: unused, rest) := by
  obtain ⟨hnewline, hlength⟩ := hline
  have hseen : ∀ i (hi : i < line.length),
      seenAt (line ++ newline :: rest) indeterminate i = line.get ⟨i, hi⟩ := by
    intro i hi
    rw [seenAt, List.getElem?_append_left hi, List.getElem?_eq_getElem hi, Option.getD_some,
      List.get_eq_getElem]
  have hfirst : ∀ i < line.length, seenAt (line ++ newline :: rest) indeterminate i ≠ newline := by
    intro i hi heq
    rw [hseen i hi] at heq
    exact hnewline (heq ▸ List.get_mem line ⟨i, hi⟩)
  have hend : seenAt (line ++ newline :: rest) indeterminate line.length = newline := by
    simp [seenAt]
  obtain ⟨scan, ⟨n, hn⟩, unused, harray⟩ := (scanned_initial (line ++ newline :: rest)
    indeterminate).exits hlength (Nat.zero_le _) hfirst hend
  -- the pass that ends the line is the one that finds its newline
  obtain ⟨m, last, -, hm, hdone⟩ := exits_last hn
  obtain ⟨hslen, hscanned⟩ := slen_of_loop hm
  have hlast : last.slen = line.length := by
    have hle : last.slen ≤ line.length := by
      by_contra hgt
      exact hscanned.searched _ (Nat.lt_of_not_le hgt) hend
    refine Nat.le_antisymm hle (Nat.le_of_not_lt fun hlt => ?_)
    obtain ⟨t, hagain, -⟩ := (hscanned.pass (hlt.trans hlength)).2 (hfirst _ hlt)
    simp [hagain] at hdone
  have hloop : loop (scanPass indeterminate) (2 ^ 30 + 1)
      (Scan.initial indeterminate (line ++ newline :: rest)) = .ok (.done scan) := by
    refine loop_done_mono (n := m + 1) ?_ (by omega)
    rw [loop_add, hm]
    simp only [loop, hdone]
  have hbytes : bytesOf (seenAt (line ++ newline :: rest) indeterminate) 0 line.length = line := by
    refine List.ext_getElem (length_bytesOf _ _ _) ?_
    intro i hi hi'
    simp only [bytesOf, List.getElem_map, List.getElem_range', Nat.zero_add, Nat.one_mul]
    exact hseen i hi'
  have hstdin : scan.stdin = rest := by
    rw [stdin_of_done hdone, hscanned.left, hlast, List.drop_left, List.tail_cons]
  refine ⟨unused, ?_⟩
  simp only [strscan, hloop, hstdin, ← harray, hbytes, List.append_assoc, List.singleton_append]

/-- INTERNAL: without a newline in the stream or in the memory there is no line.
SOURCE: my-shell.c:133-177 -/
theorem strscan_unended (hnewline : newline ∉ stream.take (2 ^ 30))
    (hmemory : ∀ k, indeterminate k ≠ newline) (line : List UInt8 × List UInt8) :
    strscan indeterminate stream ≠ .ok line := by
  have hseen : ∀ k < 2 ^ 30, seenAt stream indeterminate k ≠ newline := by
    intro k hk heq
    rw [seenAt] at heq
    cases hget : stream[k]? with
    | none =>
      rw [hget] at heq
      exact hmemory k heq
    | some c =>
      obtain rfl : c = newline := by simpa [hget] using heq
      exact hnewline (List.mem_of_getElem? (List.getElem?_take_of_lt hk ▸ hget))
  intro hscan
  unfold strscan at hscan
  split at hscan
  · cases hscan
  · cases hscan
  case h_3 scan hdone => exact not_exits_of_not_seen hseen scan ⟨_, hdone⟩

/-! ## What becomes of the words -/

section Strings

variable {word : List UInt8} {tokens : List (List UInt8)}

/-- INTERNAL: `strcmp` is zero for equal strings and for no others.
SOURCE: my-shell.c:98-106 -/
theorem strcmp_eq_zero {s t : List UInt8} (hs : 0 ∉ s) (ht : 0 ∉ t) :
    ∃ d, strcmp ((s ++ [0]).map some) (t ++ [0]) = .ok d ∧ (d = 0 ↔ s = t) := by
  have hdiffer : ∀ {c d : UInt8}, c ≠ d → c.toInt8.toInt - d.toInt8.toInt ≠ 0 := by
    intro c d hne heq
    have hsame := congrArg Int8.toUInt8 (Int8.toInt_inj.mp (Int.sub_eq_zero.mp heq))
    exact hne (by simpa using hsame)
  induction s generalizing t with
  | nil =>
    cases t with
    | nil => exact ⟨0, rfl, by simp⟩
    | cons d t =>
      rw [List.mem_cons, not_or] at ht
      refine ⟨(0 : UInt8).toInt8.toInt - d.toInt8.toInt, by simp [strcmp], ?_⟩
      simpa only [reduceCtorEq, iff_false] using hdiffer ht.1
  | cons c s ih =>
    rw [List.mem_cons, not_or] at hs
    cases t with
    | nil =>
      refine ⟨c.toInt8.toInt - (0 : UInt8).toInt8.toInt, by simp [strcmp, Ne.symm hs.1], ?_⟩
      simpa only [reduceCtorEq, iff_false] using hdiffer (Ne.symm hs.1)
    | cons d t =>
      rw [List.mem_cons, not_or] at ht
      by_cases hcd : c = d
      · subst hcd
        obtain ⟨n, hn, hiff⟩ := ih hs.2 ht.2
        refine ⟨n, ?_, by simpa using hiff⟩
        simpa [strcmp, Ne.symm hs.1] using hn
      · refine ⟨c.toInt8.toInt - d.toInt8.toInt, by simp [strcmp, hcd], ?_⟩
        simpa only [List.cons.injEq, hcd, false_and, iff_false] using hdiffer hcd

/-- INTERNAL: a string ends at its null byte. -/
theorem stringOf_token (hword : 0 ∉ word) : stringOf ((word ++ [0]).map some) = .ok word := by
  induction word with
  | nil => rfl
  | cons c word ih =>
    rw [List.mem_cons, not_or] at hword
    rw [List.cons_append, List.map_cons, stringOf, if_neg (Ne.symm hword.1), ih hword.2]
    rfl

/-- INTERNAL: the words that `execve` gets.
SOURCE: my-shell.c:336 -/
theorem argvOf_tokens (htokens : ∀ word ∈ tokens, 0 ∉ word) (unused : List (Option StrPointer)) :
    argvOf (storedTokens tokens ++ some .null :: unused) = .ok tokens := by
  induction tokens with
  | nil => rfl
  | cons word tokens ih =>
    have hrest := ih fun word hword => htokens word (List.mem_cons_of_mem _ hword)
    have hfirst := stringOf_token (htokens word List.mem_cons_self)
    rw [storedTokens] at hrest
    simp only [storedTokens, List.map_cons, List.cons_append, argvOf, hfirst, hrest, bind,
      Except.bind]

/-- INTERNAL: every string of the array is given back, and the array.
SOURCE: my-shell.c:269-284 -/
theorem freestrarray_tokens (tokens : List (List UInt8)) (unused : List (Option StrPointer)) :
    freestrarray (storedTokens tokens ++ some .null :: unused) = .ok (tokens.length + 1) := by
  induction tokens with
  | nil => rfl
  | cons word tokens ih =>
    rw [storedTokens] at ih
    simp only [storedTokens, List.map_cons, List.cons_append, freestrarray, ih, bind, Except.bind,
      List.length_cons]

/-- INTERNAL: the blocks of the array.
SOURCE: my-shell.c:179-267 -/
theorem blocksOf_tokens (tokens : List (List UInt8)) (unused : ℕ) :
    blocksOf (storedTokens tokens ++ some .null :: freshArray StrPointer unused) =
      tokens.length + 1 := by
  simp [blocksOf, storedTokens, freshArray, List.countP_append, List.countP_map,
    List.countP_replicate, Function.comp_def]

/-- INTERNAL: no word of a command has a null byte. -/
theorem zero_not_mem_command (line : List UInt8) : ∀ word ∈ commandOf line, 0 ∉ word := by
  intro word hword hmem
  obtain ⟨before, after, hwhole⟩ := exists_isWord hword
  have hzero : 0 ∈ cString line := by
    rw [hwhole.whole]
    simp [hmem]
  simpa using List.mem_takeWhile_imp hzero

/-- INTERNAL: what `strsplit` makes of a line.
SOURCE: my-shell.c:309-312 -/
theorem strsplit_line (hline : IsReadable line) (tail : List UInt8) :
    ∃ unused, strsplit (line ++ 0 :: tail) blank =
      .ok (storedTokens (commandOf line) ++ some .null :: freshArray StrPointer unused) := by
  have hzero : 0 ∉ cString line := fun hmem => by simpa using List.mem_takeWhile_imp hmem
  have hshort : (cString line).length < intMax := by
    have hle := (List.takeWhile_prefix (l := line) (p := (· ≠ 0))).length_le
    have hlength := hline.2
    rw [cString]
    simp only [intMax]
    omega
  -- the string ends at the first null byte of the line, or behind it
  obtain ⟨tail', htail⟩ : ∃ tail', line ++ 0 :: tail = cString line ++ 0 :: tail' := by
    have hsplit := List.takeWhile_append_dropWhile (p := (· ≠ 0)) (l := line)
    rw [← cString] at hsplit
    cases hdrop : line.dropWhile (· ≠ 0) with
    | nil =>
      rw [hdrop, List.append_nil] at hsplit
      exact ⟨tail, by rw [hsplit]⟩
    | cons c after =>
      have hc : c = 0 := by
        have hhead := List.head?_dropWhile_not (· ≠ 0) line
        rw [hdrop] at hhead
        simpa using hhead
      rw [hdrop, hc] at hsplit
      exact ⟨after ++ 0 :: tail, by rw [← List.cons_append, ← List.append_assoc, hsplit]⟩
  rw [htail]
  exact strsplit_words tail' hzero (Or.inl hshort)

end Strings

/-! ## One pass -/

/-- INTERNAL: a line without a command is one more of those that are lost. -/
theorem behind_blank (hblank : commandOf line = []) (lines : List (List UInt8))
    (rest : List UInt8) :
    Shell.behind (lines ++ [line]) rest =
      { Shell.behind lines rest with
        prompts := lines.length + 1
        allocated := 2 * blankLines lines + 2 } := by
  have hcommands : commandsOf (lines ++ [line]) = commandsOf lines := by
    simp [commandsOf, hblank]
  have hlost : blankLines (lines ++ [line]) = blankLines lines + 1 := by
    simp [blankLines, hblank]
  rw [Shell.behind, hcommands, hlost, List.length_append, List.length_singleton]
  simp [Shell.behind, Int.mul_add]

/-- INTERNAL: a command is one more of those that have been run. -/
theorem behind_command (hcommand : commandOf line ≠ []) (lines : List (List UInt8))
    (rest : List UInt8) :
    Shell.behind (lines ++ [line]) rest =
      { Shell.behind lines rest with
        prompts := lines.length + 1
        children := commandsOf lines ++ [commandOf line] } := by
  have hcommands : commandsOf (lines ++ [line]) = commandsOf lines ++ [commandOf line] := by
    simp [commandsOf, hcommand]
  have hlost : blankLines (lines ++ [line]) = blankLines lines := by
    simp [blankLines, hcommand]
  rw [Shell.behind, hcommands, hlost, List.length_append, List.length_singleton]
  rfl

/-- INTERNAL: what is done for a command that is not `exit`.
SOURCE: my-shell.c:325-359 -/
theorem runCommand_tokens (world : ShellWorld) {tokens : List (List UInt8)}
    (htokens : ∀ word ∈ tokens, 0 ∉ word) (unused : List (Option StrPointer)) (shell : Shell) :
    runCommand world (storedTokens tokens ++ some .null :: unused) shell =
      if world.forks shell.children.length then
        .ok (.again { shell with
          children := shell.children ++ [tokens]
          allocated := shell.allocated - (1 + (tokens.length + 1 : ℕ)) })
      else .ok (.done { shell with returned := some 1 }) := by
  simp only [runCommand, argvOf_tokens htokens, freestrarray_tokens, bind, Except.bind]

/-- What a line leads to.
SOURCE: my-shell.c:303-360 -/
theorem shellPass_line (world : ShellWorld) (hline : IsReadable line) (lines : List (List UInt8))
    (rest : List UInt8) :
    shellPass world (Shell.behind lines (line ++ newline :: rest)) =
      if commandOf line ≠ [] ∧ ((commandOf line).head? = some exitCommand ∨
          world.forks (commandsOf lines).length = false) then
        .ok (.done (Shell.ended lines line rest))
      else .ok (.again (Shell.behind (lines ++ [line]) rest)) := by
  obtain ⟨tail, hscan⟩ := strscan_line (world.memory lines.length) hline rest
  obtain ⟨unused, hsplit⟩ := strsplit_line hline tail
  have hzero := zero_not_mem_command line
  simp only [shellPass, Shell.behind, hscan, hsplit, blocksOf_tokens, bind, Except.bind]
  cases hcommand : commandOf line with
  | nil =>
    have hload : loadAt (storedTokens [] ++ some .null :: freshArray StrPointer unused) 0 =
        .ok (some .null) := rfl
    rw [if_neg (by simp), ← Shell.behind, behind_blank hcommand]
    simp only [hload]
    rfl
  | cons word command =>
    have hne : commandOf line ≠ [] := by simp [hcommand]
    rw [hcommand] at hzero
    obtain ⟨d, hd, hiff⟩ := strcmp_eq_zero (t := exitCommand) (hzero word List.mem_cons_self)
      (by decide)
    have hload : loadAt (storedTokens (word :: command) ++
        some .null :: freshArray StrPointer unused) 0 =
          .ok (some (.str ((word ++ [0]).map some))) := rfl
    have hallocated : 2 * (blankLines lines : ℤ) + (1 + ((word :: command).length + 1 : ℕ)) =
        2 * blankLines lines + ((commandOf line).length + 2) := by
      rw [hcommand]
      omega
    simp only [hload, hd, hallocated]
    by_cases hexit : word = exitCommand
    · rw [if_pos (hiff.mpr hexit), if_pos ⟨List.cons_ne_nil _ _, Or.inl (by rw [hexit]; rfl)⟩,
        Shell.ended, if_pos (by rw [hcommand, hexit]; rfl)]
    · rw [if_neg (mt hiff.mp hexit), runCommand_tokens world hzero]
      have hhead : ¬ (word :: command).head? = some exitCommand := by simpa using hexit
      cases hfork : world.forks (commandsOf lines).length with
      | true =>
        rw [if_pos rfl, if_neg (by simp [hexit]), ← Shell.behind, behind_command hne, hcommand]
        congr 3
        simp only [Shell.behind]
        push_cast
        omega
      | false =>
        rw [if_neg (by simp), if_pos ⟨List.cons_ne_nil _ _, Or.inr rfl⟩, Shell.ended,
          if_neg (by rw [hcommand]; exact hhead)]

/-- INTERNAL: there is no pass without a line.
SOURCE: my-shell.c:303-360 -/
theorem shellPass_unended (hmemory : ∀ n k, world.memory n k ≠ newline) {shell : Shell}
    (hnewline : newline ∉ shell.stdin.take (2 ^ 30)) (p : Pass Shell) :
    shellPass world shell ≠ .ok p := by
  intro hpass
  obtain ⟨line, hscan, -⟩ := bind_eq_ok hpass
  exact strscan_unended hnewline (hmemory _) line hscan

/-! ## Whole runs -/

/-- The shell has passed these lines of the stream, and is at the top of its loop. -/
structure Passed (world : ShellWorld) (stream : List UInt8) (lines : List (List UInt8))
    (shell : Shell) : Prop where
  state : shell = Shell.behind lines shell.stdin
  whole : stream = textOf lines ++ shell.stdin
  readable : ∀ l ∈ lines, IsReadable l
  passed : ∀ l ∈ lines, (commandOf l).head? ≠ some exitCommand
  forked : ∀ i < (commandsOf lines).length, world.forks i = true

/-- INTERNAL: the first line of a stream. -/
theorem exists_line (hnewline : newline ∈ stream.take (2 ^ 30)) :
    ∃ line rest, IsReadable line ∧ stream = line ++ newline :: rest := by
  obtain ⟨line, rest, htake, hline⟩ := List.eq_append_cons_of_mem hnewline
  have hlength := congrArg List.length htake
  rw [List.length_append, List.length_cons, List.length_take] at hlength
  refine ⟨line, rest ++ stream.drop (2 ^ 30), ⟨hline, by omega⟩, ?_⟩
  rw [← List.cons_append, ← List.append_assoc, ← htake, List.take_append_drop]

/-- INTERNAL: one more line that can be read. -/
theorem readable_concat (hlines : ∀ l ∈ lines, IsReadable l) (hline : IsReadable line) :
    ∀ l ∈ lines ++ [line], IsReadable l := by
  intro l hl
  rcases List.mem_append.mp hl with hl | hl
  · exact hlines l hl
  · rwa [List.mem_singleton.mp hl]

section Runs

variable {shell shell' : Shell}

/-- INTERNAL: a pass takes a line, if there are no newlines in the memory.
SOURCE: my-shell.c:303-360 -/
theorem Passed.pass (hmemory : ∀ n k, world.memory n k ≠ newline) {p : Pass Shell}
    (h : Passed world stream lines shell) (hpass : shellPass world shell = .ok p) :
    ∃ line rest, IsReadable line ∧ shell.stdin = line ++ newline :: rest ∧
      (if commandOf line ≠ [] ∧ ((commandOf line).head? = some exitCommand ∨
          world.forks (commandsOf lines).length = false) then .done (Shell.ended lines line rest)
        else .again (Shell.behind (lines ++ [line]) rest)) = p := by
  by_cases hnewline : newline ∈ shell.stdin.take (2 ^ 30)
  · obtain ⟨line, rest, hline, hstdin⟩ := exists_line hnewline
    refine ⟨line, rest, hline, hstdin, ?_⟩
    rw [h.state, hstdin, shellPass_line world hline] at hpass
    rw [← Except.ok.injEq, ← hpass]
    split <;> rfl
  · exact absurd hpass (shellPass_unended hmemory hnewline p)

/-- INTERNAL: another line is passed.
SOURCE: my-shell.c:303-360 -/
theorem Passed.again (hmemory : ∀ n k, world.memory n k ≠ newline)
    (h : Passed world stream lines shell) (hpass : shellPass world shell = .ok (.again shell')) :
    ∃ line, Passed world stream (lines ++ [line]) shell' := by
  obtain ⟨line, rest, hline, hstdin, hp⟩ := h.pass hmemory hpass
  split at hp
  · cases hp
  case isFalse hgoes =>
    cases hp
    rw [not_and, not_or] at hgoes
    refine ⟨line, rfl, ?_, readable_concat h.readable hline, ?_, ?_⟩
    · rw [h.whole, hstdin]
      simp [textOf, Shell.behind]
    · intro l hl
      rcases List.mem_append.mp hl with hl | hl
      · exact h.passed l hl
      · rw [List.mem_singleton.mp hl]
        intro hexit
        refine (hgoes ?_).1 hexit
        intro hnil
        rw [hnil] at hexit
        cases hexit
    · intro i hi
      by_cases hcommand : commandOf line = []
      · exact h.forked i (by simpa [commandsOf, hcommand] using hi)
      · have hcount : (commandsOf (lines ++ [line])).length = (commandsOf lines).length + 1 := by
          simp [commandsOf, hcommand]
        rcases Nat.lt_succ_iff_lt_or_eq.mp (hcount ▸ hi) with hi | rfl
        · exact h.forked i hi
        · simpa using (hgoes hcommand).2

/-- INTERNAL: the shell ends at the next line.
SOURCE: my-shell.c:303-363 -/
theorem Passed.done (hmemory : ∀ n k, world.memory n k ≠ newline)
    (h : Passed world stream lines shell) (hpass : shellPass world shell = .ok (.done shell')) :
    ∃ line rest, EndsAt world stream lines line rest := by
  obtain ⟨line, rest, hline, hstdin, hp⟩ := h.pass hmemory hpass
  split at hp
  case isTrue hends =>
    exact ⟨line, rest, by rw [h.whole, hstdin], readable_concat h.readable hline, h.passed, h.forked,
      hends.1, hends.2⟩
  · cases hp

end Runs

end Comp30023.Analysis
