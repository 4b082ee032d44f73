import Comp30023.Library.Outcome
import Comp30023.Model.ProcessDataFileParser

/-!
# What the parser makes of a file

The lines and tokens of a file in their own terms, the array as the list of records it holds,
and between them the parser: `parses_iff` says which records it returns for a file, and that
it returns at all, by the pieces in which the file is read.
-/

set_option autoImplicit false

namespace Comp30023.Interface

open Comp30023.Library Comp30023.Model

/-! ## Lines -/

/-- The tokens of a line. -/
def tokensOf (line : List UInt8) : List (List UInt8) := words (tokenDelimiter.contains ·) line

/-- The record that the first four tokens of a line are, if it has so many. -/
def recordOf (line : List UInt8) : Option ScheduledProcess :=
  match tokensOf line with
  | startTime :: processId :: memorySize :: jobTime :: _ =>
    some ⟨atoi startTime, atoi processId, atoi memorySize, atoi jobTime⟩
  | _ => none

/-- The lines of a file, however long they are. -/
def linesOfFile (file : List UInt8) : List (List UInt8) := linesOf newline file

/-- The pieces in which a file is read. -/
def piecesOfFile (file : List UInt8) : List (List UInt8) :=
  piecesOf newline (lineMaxLen - 1) (lineMaxLen - 1) file

/-- INTERNAL: a line has a record if and only if it has enough tokens. -/
theorem recordOf_isSome (line : List UInt8) :
    (recordOf line).isSome = true ↔ tokensLen ≤ (tokensOf line).length := by
  unfold recordOf tokensLen
  split
  case h_1 heq => simp [heq]
  case h_2 hfew =>
    simp only [Option.isSome_none, Bool.false_eq_true, false_iff, Nat.not_le]
    match htokens : tokensOf line with
    | [] | [_] | [_, _] | [_, _, _] => simp
    | a :: b :: c :: d :: rest => exact absurd htokens (hfew a b c d rest)

/-- INTERNAL: the tokens are what `strtok` finds, one after the other. -/
theorem tokensOf_strtok (text : List UInt8) :
    tokensOf text =
      match strtok tokenDelimiter text with
      | none => []
      | some (token, rest) => token :: tokensOf rest := by
  unfold tokensOf strtok
  rw [words_takeWord]
  cases takeWord (tokenDelimiter.contains ·) text <;> rfl

/-- INTERNAL: the array of tokens ends in a null pointer if and only if there is room for one.
SOURCE: process-data-file-parser.c:65-72 -/
theorem getTokens_eq (room : ℕ) (text : List UInt8) :
    getTokens room text =
      ((tokensOf text).take room).map some ++
        if (tokensOf text).length < room then [none] else [] := by
  induction room generalizing text with
  | zero => simp [getTokens]
  | succ room ih =>
    rw [getTokens, tokensOf_strtok]
    cases strtok tokenDelimiter text with
    | none => simp
    | some next => simp [ih]

/-- INTERNAL: a text without a zero is all of the text. -/
theorem cString_eq {text : List UInt8} (h : 0 ∉ text) : cString text = text := by
  apply List.takeWhile_eq_self_iff.mpr
  intro c hc
  simp only [decide_eq_true_eq]
  rintro rfl
  exact h hc

/-- What is done with a line, by its tokens: three are taken for four.
SOURCE: process-data-file-parser.c:64-104 -/
theorem parseLine_eq (procs : ScheduledProcs) {line : List UInt8} (h : 0 ∉ line) :
    parseLine procs line =
      if (tokensOf line).length = 3 then .error .atoiOfNull
      else
        match recordOf line with
        | none => .ok procs
        | some proc => procs.add proc := by
  unfold parseLine recordOf
  rw [cString_eq h, getTokens_eq]
  match tokensOf line with
  | [] | [_] | [_, _] => rfl
  | [_, _, _] => rfl
  | a :: b :: c :: d :: rest =>
    have hfull : ¬(a :: b :: c :: d :: rest).length < tokensLen := by simp [tokensLen]
    have hmore : ¬(a :: b :: c :: d :: rest).length = 3 := by simp
    rw [if_neg hfull, if_neg hmore]
    rfl

/-! ## The array -/

/-- The array holds these records, and there is room for a null pointer behind them. -/
structure Holds (procs : ScheduledProcs) (records : List ScheduledProcess) : Prop where
  len : procs.scheduledProcsLen = records.length
  slots : records.map Slot.proc <+: procs.scheduledProcs
  allocated : procs.scheduledProcs.length = procs.scheduledProcsMaxLen + 1
  room : records.length ≤ procs.scheduledProcsMaxLen
  maxLen : ∃ k ≤ 30, procs.scheduledProcsMaxLen = 2 ^ k

/-- More records than these cannot be counted: the next size of the array is no `int`. -/
def maxRecords : ℕ := 2 ^ 30

theorem holds_initial : Holds ScheduledProcs.initial [] where
  len := rfl
  slots := List.nil_prefix
  allocated := rfl
  room := Nat.zero_le _
  maxLen := ⟨2, by decide, rfl⟩

/-- INTERNAL: no array holds more records than can be counted. -/
theorem Holds.length_le {procs : ScheduledProcs} {records : List ScheduledProcess}
    (h : Holds procs records) : records.length ≤ maxRecords := by
  obtain ⟨k, hk, hmax⟩ := h.maxLen
  calc records.length ≤ procs.scheduledProcsMaxLen := h.room
    _ = 2 ^ k := hmax
    _ ≤ 2 ^ 30 := Nat.pow_le_pow_right (by decide) hk

/-- INTERNAL: a slot is stored behind the records. -/
theorem Holds.storeSlot {procs : ScheduledProcs} {records : List ScheduledProcess}
    (h : Holds procs records) (slot : Slot) :
    ∃ rest, Model.storeSlot procs.scheduledProcs procs.scheduledProcsLen slot =
        .ok (records.map Slot.proc ++ slot :: rest) ∧
      (records.map Slot.proc ++ slot :: rest).length = procs.scheduledProcsMaxLen + 1 := by
  obtain ⟨rest, hslots⟩ := h.slots
  have hallocated := h.allocated
  have hroom := h.room
  rw [← hslots, List.length_append, List.length_map] at hallocated
  cases rest with
  | nil =>
    rw [List.length_nil] at hallocated
    omega
  | cons first rest =>
    refine ⟨rest, ?_, ?_⟩
    · have hinside : records.length < (records.map Slot.proc ++ first :: rest).length := by
        simp
      rw [Model.storeSlot, h.len, ← hslots, if_pos hinside,
        List.set_append_right _ _ (by simp)]
      simp
    · rw [List.length_append, List.length_map]
      exact hallocated

/-- INTERNAL: a full array is made larger and keeps its records, as long as its new size is an
`int`.
SOURCE: process-data-file-parser.c:95-101 -/
theorem Holds.grow {procs : ScheduledProcs} {records : List ScheduledProcess}
    (h : Holds procs records) (hmax : procs.scheduledProcsMaxLen < maxRecords) :
    ∃ procs', procs.grow = .ok procs' ∧ Holds procs' records ∧
      procs.scheduledProcsMaxLen < procs'.scheduledProcsMaxLen := by
  obtain ⟨k, hk, hpow⟩ := h.maxLen
  have hpos : 0 < procs.scheduledProcsMaxLen := by
    rw [hpow]
    exact Nat.two_pow_pos k
  have hint : procs.scheduledProcsMaxLen * 2 + 1 ≤ intMax := by
    unfold maxRecords at hmax
    unfold intMax
    omega
  have hk' : k < 30 := by
    rw [hpow] at hmax
    exact (Nat.pow_lt_pow_iff_right (by decide)).mp hmax
  refine ⟨{ procs with
    scheduledProcs := reallocSlots procs.scheduledProcs (procs.scheduledProcsMaxLen * 2 + 1)
    scheduledProcsMaxLen := procs.scheduledProcsMaxLen * 2 }, ?_, ?_, ?_⟩
  · rw [ScheduledProcs.grow, scheduledProcsMaxLenGrowFactor, cInt,
      if_pos (Nat.le_of_succ_le hint)]
    simp only [bind, Except.bind, cInt, if_pos hint]
  · have hkeep : reallocSlots procs.scheduledProcs (procs.scheduledProcsMaxLen * 2 + 1) =
        procs.scheduledProcs ++ List.replicate procs.scheduledProcsMaxLen .indeterminate := by
      rw [reallocSlots, List.take_of_length_le, h.allocated]
      · congr 2
        omega
      · rw [h.allocated]
        omega
    refine ⟨h.len, ?_, ?_, ?_, k + 1, hk', ?_⟩
    · rw [hkeep]
      exact h.slots.trans (List.prefix_append _ _)
    · show (reallocSlots procs.scheduledProcs (procs.scheduledProcsMaxLen * 2 + 1)).length =
        procs.scheduledProcsMaxLen * 2 + 1
      rw [hkeep, List.length_append, List.length_replicate, h.allocated]
      omega
    · have hroom := h.room
      show records.length ≤ procs.scheduledProcsMaxLen * 2
      omega
    · show procs.scheduledProcsMaxLen * 2 = 2 ^ (k + 1)
      rw [hpow, Nat.pow_succ]
  · show procs.scheduledProcsMaxLen < procs.scheduledProcsMaxLen * 2
    omega

/-- INTERNAL: room for one more record.
SOURCE: process-data-file-parser.c:93-102 -/
theorem Holds.reserve {procs : ScheduledProcs} {records : List ScheduledProcess}
    (h : Holds procs records) (hlength : records.length < maxRecords) :
    ∃ ready, procs.reserve = .ok ready ∧ Holds ready records ∧
      records.length < ready.scheduledProcsMaxLen := by
  unfold ScheduledProcs.reserve
  by_cases hfull : procs.scheduledProcsLen = procs.scheduledProcsMaxLen
  · rw [if_pos hfull]
    rw [h.len] at hfull
    obtain ⟨ready, hgrow, hready, hlt⟩ := h.grow (hfull ▸ hlength)
    exact ⟨ready, hgrow, hready, hfull ▸ hlt⟩
  · rw [if_neg hfull]
    have hroom := h.room
    rw [h.len] at hfull
    exact ⟨procs, rfl, h, by omega⟩

/-- INTERNAL: a record is added behind the others.
SOURCE: process-data-file-parser.c:90-104 -/
theorem Holds.add {procs : ScheduledProcs} {records : List ScheduledProcess}
    (h : Holds procs records) (proc : ScheduledProcess) (hlength : records.length < maxRecords) :
    ∃ procs', procs.add proc = .ok procs' ∧ Holds procs' (records ++ [proc]) := by
  obtain ⟨ready, hreserve, hready, hroom⟩ := h.reserve hlength
  obtain ⟨rest, hstore, hallocated⟩ := hready.storeSlot (.proc proc)
  have hint : ready.scheduledProcsLen + 1 ≤ intMax := by
    unfold maxRecords at hlength
    unfold intMax
    rw [hready.len]
    omega
  refine ⟨{ ready with
    scheduledProcs := records.map Slot.proc ++ .proc proc :: rest
    scheduledProcsLen := ready.scheduledProcsLen + 1 }, ?_, ?_⟩
  · simp only [ScheduledProcs.add, hreserve, bind, Except.bind, hstore, cInt, if_pos hint]
  · refine ⟨?_, ?_, hallocated, ?_, hready.maxLen⟩
    · rw [List.length_append, ← hready.len]
      rfl
    · rw [List.map_append]
      exact ⟨rest, by simp⟩
    · rw [List.length_append]
      exact hroom

/-- INTERNAL: the record that is one too many.
SOURCE: process-data-file-parser.c:93-95 -/
theorem Holds.add_overflow {procs : ScheduledProcs} {records : List ScheduledProcess}
    (h : Holds procs records) (proc : ScheduledProcess) (hlength : records.length = maxRecords) :
    procs.add proc = .error .intOverflow := by
  obtain ⟨k, hk, hpow⟩ := h.maxLen
  have hroom := h.room
  have hle : 2 ^ k ≤ 2 ^ 30 := Nat.pow_le_pow_right (by decide) hk
  have hmax : procs.scheduledProcsMaxLen = maxRecords := by
    unfold maxRecords at hlength ⊢
    omega
  have hfull : procs.scheduledProcsLen = procs.scheduledProcsMaxLen := by
    rw [h.len, hlength, hmax]
  have hint : ¬procs.scheduledProcsMaxLen * scheduledProcsMaxLenGrowFactor ≤ intMax := by
    rw [hmax]
    decide
  simp only [ScheduledProcs.add, ScheduledProcs.reserve, if_pos hfull, ScheduledProcs.grow, cInt,
    if_neg hint, bind, Except.bind]

/-! ## The loop -/

/-- INTERNAL: a line that does no harm.
SOURCE: process-data-file-parser.c:64-104 -/
theorem Holds.parseLine {procs : ScheduledProcs} {records : List ScheduledProcess}
    (h : Holds procs records) {line : List UInt8} (hzero : 0 ∉ line)
    (htokens : (tokensOf line).length ≠ 3)
    (hlength : records.length + (recordOf line).toList.length ≤ maxRecords) :
    ∃ procs', Model.parseLine procs line = .ok procs' ∧
      Holds procs' (records ++ (recordOf line).toList) := by
  rw [parseLine_eq procs hzero, if_neg htokens]
  cases hrecord : recordOf line with
  | none => exact ⟨procs, rfl, by simpa using h⟩
  | some proc =>
    rw [hrecord] at hlength
    exact h.add proc hlength

/-- INTERNAL: no other line is got through.
SOURCE: process-data-file-parser.c:64-104 -/
theorem Holds.of_parseLine {procs procs' : ScheduledProcs} {records : List ScheduledProcess}
    (h : Holds procs records) {line : List UInt8} (hzero : 0 ∉ line)
    (hparse : Model.parseLine procs line = .ok procs') :
    (tokensOf line).length ≠ 3 ∧ Holds procs' (records ++ (recordOf line).toList) := by
  rw [parseLine_eq procs hzero] at hparse
  by_cases htokens : (tokensOf line).length = 3
  · rw [if_pos htokens] at hparse
    exact absurd hparse (by simp)
  · rw [if_neg htokens] at hparse
    refine ⟨htokens, ?_⟩
    cases hrecord : recordOf line with
    | none =>
      rw [hrecord, Except.ok.injEq] at hparse
      simpa [← hparse] using h
    | some proc =>
      simp only [hrecord] at hparse
      rcases Nat.lt_or_eq_of_le h.length_le with hlength | hlength
      · obtain ⟨added, hadd, hadded⟩ := h.add proc hlength
        rw [hadd, Except.ok.injEq] at hparse
        exact hparse ▸ hadded
      · rw [h.add_overflow proc hlength] at hparse
        exact absurd hparse (by simp)

/-- INTERNAL: the records of lines come one after the other. -/
theorem filterMap_recordOf_cons (line : List UInt8) (lines : List (List UInt8)) :
    (line :: lines).filterMap recordOf =
      (recordOf line).toList ++ lines.filterMap recordOf := by
  cases hrecord : recordOf line <;> simp [hrecord]

/-- INTERNAL: lines that do no harm, one after the other. -/
theorem Holds.parseLines {lines : List (List UInt8)} {procs : ScheduledProcs}
    {records : List ScheduledProcess} (h : Holds procs records)
    (hzero : ∀ line ∈ lines, 0 ∉ line) (htokens : ∀ line ∈ lines, (tokensOf line).length ≠ 3)
    (hlength : records.length + (lines.filterMap recordOf).length ≤ maxRecords) :
    ∃ procs', lines.foldlM Model.parseLine procs = .ok procs' ∧
      Holds procs' (records ++ lines.filterMap recordOf) := by
  induction lines generalizing procs records with
  | nil => exact ⟨procs, rfl, by simpa using h⟩
  | cons line lines ih =>
    rw [List.forall_mem_cons] at hzero htokens
    rw [filterMap_recordOf_cons, List.length_append] at hlength
    obtain ⟨next, hnext, hholds⟩ := h.parseLine hzero.1 htokens.1 (by omega)
    have hrest : (records ++ (recordOf line).toList).length +
        (lines.filterMap recordOf).length ≤ maxRecords := by
      rw [List.length_append]
      omega
    obtain ⟨procs', hlines, hholds'⟩ := ih hholds hzero.2 htokens.2 hrest
    refine ⟨procs', ?_, ?_⟩
    · rw [List.foldlM_cons, hnext]
      exact hlines
    · rw [filterMap_recordOf_cons, ← List.append_assoc]
      exact hholds'

/-- INTERNAL: no other lines are got through. -/
theorem Holds.of_parseLines {lines : List (List UInt8)} {procs procs' : ScheduledProcs}
    {records : List ScheduledProcess} (h : Holds procs records)
    (hzero : ∀ line ∈ lines, 0 ∉ line)
    (hparse : lines.foldlM Model.parseLine procs = .ok procs') :
    (∀ line ∈ lines, (tokensOf line).length ≠ 3) ∧
      Holds procs' (records ++ lines.filterMap recordOf) := by
  induction lines generalizing procs records with
  | nil =>
    rw [List.foldlM_nil] at hparse
    cases hparse
    exact ⟨by simp, by simpa using h⟩
  | cons line lines ih =>
    rw [List.forall_mem_cons] at hzero ⊢
    rw [List.foldlM_cons] at hparse
    cases hline : Model.parseLine procs line with
    | error e => simp [hline, bind, Except.bind] at hparse
    | ok next =>
      rw [hline] at hparse
      obtain ⟨hfirst, hnext⟩ := h.of_parseLine hzero.1 hline
      obtain ⟨hrest, hholds⟩ := ih hnext hzero.2 hparse
      rw [filterMap_recordOf_cons, ← List.append_assoc]
      exact ⟨⟨hfirst, hrest⟩, hholds⟩

/-- INTERNAL: the loop is left when all pieces of the file are read.
SOURCE: process-data-file-parser.c:62-105 -/
theorem loop_parsePass {n : ℕ} {fp : List UInt8} (h : fp.length < n) (procs : ScheduledProcs) :
    loop parsePass n (fp, procs) =
      ((piecesOfFile fp).foldlM parseLine procs).map fun procs => .done ([], procs) := by
  induction n generalizing fp procs with
  | zero => omega
  | succ n ih =>
    by_cases hfp : fp = []
    · rw [hfp]
      rfl
    · have hpieces : piecesOfFile fp = (takeLine newline (lineMaxLen - 1) fp).1 ::
          piecesOfFile (takeLine newline (lineMaxLen - 1) fp).2 :=
        piecesOf_takeLine (lineMaxLen - 1) (by decide) hfp
      have hlength : (takeLine newline (lineMaxLen - 1) fp).2.length < fp.length :=
        length_takeLine_lt (by decide) hfp
      rw [hpieces, List.foldlM_cons]
      simp only [loop, parsePass, fgets, if_neg hfp]
      cases hline : parseLine procs (takeLine newline (lineMaxLen - 1) fp).1 with
      | error e => rfl
      | ok next => exact ih (by omega) next

/-- Between two passes, the array has a slot for every record that it may hold and one more,
and the slot that comes next is one of them.
SOURCE: process-data-file-parser.c:54, 96, 103, 108 -/
def StaysInside (file : List UInt8) : Prop :=
  ∀ fp procs, Reaches parsePass (file, ScheduledProcs.initial) (fp, procs) →
    procs.scheduledProcs.length = procs.scheduledProcsMaxLen + 1 ∧
      procs.scheduledProcsLen < procs.scheduledProcs.length

/-- INTERNAL: a pass keeps the array in order. -/
theorem outcome_parsePass (s : List UInt8 × ScheduledProcs)
    (h : 0 ∉ s.1 ∧ ∃ records, Holds s.2 records) :
    Outcome (fun p => 0 ∉ p.state.1 ∧ ∃ records, Holds p.state.2 records) (fun _ => True)
      (parsePass s) := by
  obtain ⟨fp, procs⟩ := s
  obtain ⟨hzero, records, hholds⟩ := h
  unfold parsePass fgets
  by_cases hfp : fp = []
  · rw [if_pos hfp]
    exact ⟨hzero, records, hholds⟩
  · rw [if_neg hfp]
    have happend := takeLine_append newline (lineMaxLen - 1) fp
    generalize takeLine newline (lineMaxLen - 1) fp = next at happend
    rw [← happend, List.mem_append, not_or] at hzero
    cases hline : Model.parseLine procs next.1 with
    | error e => simp [hline, bind, Except.bind, Outcome]
    | ok procs' =>
      have hholds' := (hholds.of_parseLine hzero.1 hline).2
      simp only [hline, bind, Except.bind]
      exact ⟨hzero.2, _, hholds'⟩

theorem staysInside {file : List UInt8} (hzero : 0 ∉ file) : StaysInside file := by
  rintro fp procs ⟨n, hn⟩
  have hrun := outcome_loop outcome_parsePass n (file, ScheduledProcs.initial)
    ⟨hzero, [], holds_initial⟩
  rw [hn] at hrun
  obtain ⟨-, records, hholds⟩ := hrun
  have hlen : procs.scheduledProcsLen = records.length := hholds.len
  have hallocated : procs.scheduledProcs.length = procs.scheduledProcsMaxLen + 1 :=
    hholds.allocated
  have hroom : records.length ≤ procs.scheduledProcsMaxLen := hholds.room
  exact ⟨hallocated, by omega⟩

/-! ## The file -/

/-- The array ends in a null pointer, and these records come before it. -/
def Terminated (slots : List Slot) (records : List ScheduledProcess) : Prop :=
  ∃ rest, slots = records.map Slot.proc ++ .null :: rest

/-- The parser returns an array that holds these records, and nothing goes wrong on the way. -/
def Parses (file : List UInt8) (records : List ScheduledProcess) : Prop :=
  ∃ slots, parseProcessDataFile file = .ok slots ∧ Terminated slots records

/-- INTERNAL: the records before the null pointer are those that are there. -/
theorem Terminated.unique {slots : List Slot} {records records' : List ScheduledProcess}
    (h : Terminated slots records) (h' : Terminated slots records') : records = records' := by
  obtain ⟨rest, rfl⟩ := h
  obtain ⟨rest', heq⟩ := h'
  induction records generalizing records' with
  | nil =>
    cases records' with
    | nil => rfl
    | cons proc records' => simp at heq
  | cons proc records ih =>
    cases records' with
    | nil => simp at heq
    | cons proc' records' =>
      simp only [List.map_cons, List.cons_append, List.cons.injEq, Slot.proc.injEq] at heq
      rw [heq.1, ih heq.2]

/-- INTERNAL: the parser goes through the pieces of the file and sets the null pointer.
SOURCE: process-data-file-parser.c:40-111 -/
theorem parseProcessDataFile_eq (file : List UInt8) :
    parseProcessDataFile file =
      (piecesOfFile file).foldlM parseLine ScheduledProcs.initial >>= fun procs =>
        storeSlot procs.scheduledProcs procs.scheduledProcsLen .null := by
  unfold parseProcessDataFile
  rw [loop_parsePass (Nat.lt_succ_self _)]
  cases (piecesOfFile file).foldlM parseLine ScheduledProcs.initial <;> rfl

/-- The records that the parser returns come from the pieces in which the file is read; it
returns if and only if no piece has three tokens and there are not too many records.
SOURCE: process-data-file-parser.c:40-111 -/
theorem parses_iff {file : List UInt8} (hzero : 0 ∉ file) (records : List ScheduledProcess) :
    Parses file records ↔
      (piecesOfFile file).filterMap recordOf = records ∧
        (∀ piece ∈ piecesOfFile file, (tokensOf piece).length ≠ 3) ∧
        records.length ≤ maxRecords := by
  have hpieces : ∀ piece ∈ piecesOfFile file, 0 ∉ piece := by
    intro piece hpiece hmem
    apply hzero
    rw [← flatten_piecesOf newline (lineMaxLen - 1) (lineMaxLen - 1) file]
    exact List.mem_flatten.mpr ⟨piece, hpiece, hmem⟩
  unfold Parses
  rw [parseProcessDataFile_eq]
  constructor
  · rintro ⟨slots, hparse, hterminated⟩
    cases hlines : (piecesOfFile file).foldlM parseLine ScheduledProcs.initial with
    | error e => simp [hlines, bind, Except.bind] at hparse
    | ok procs =>
      obtain ⟨htokens, hholds⟩ := holds_initial.of_parseLines hpieces hlines
      obtain ⟨rest, hstore, -⟩ := hholds.storeSlot .null
      rw [hlines] at hparse
      have hslots := hstore.symm.trans hparse
      rw [Except.ok.injEq] at hslots
      have hrecords := Terminated.unique ⟨rest, hslots.symm⟩ hterminated
      exact ⟨hrecords, htokens, hrecords ▸ hholds.length_le⟩
  · rintro ⟨rfl, htokens, hlength⟩
    obtain ⟨procs, hlines, hholds⟩ :=
      holds_initial.parseLines hpieces htokens (by simpa using hlength)
    obtain ⟨rest, hstore, -⟩ := hholds.storeSlot .null
    rw [hlines]
    exact ⟨_, hstore, rest, rfl⟩

/-- INTERNAL: a file whose lines are short is read line by line. -/
theorem piecesOfFile_eq {file : List UInt8}
    (h : ∀ line ∈ linesOfFile file, line.length ≤ lineMaxLen - 1) :
    piecesOfFile file = linesOfFile file := by
  have hline : ∀ line ∈ linesOfFile file, piecesOfFile line = [line] := by
    intro line hline
    obtain ⟨hne, hnewline⟩ := linesOf_line hline
    exact piecesOf_line (lineMaxLen - 1) hne hnewline (h line hline)
  have hpieces : piecesOfFile file = (linesOfFile file).flatMap piecesOfFile :=
    piecesOf_flatMap (lineMaxLen - 1) file
  rw [hpieces, List.flatMap_congr hline, List.flatMap_singleton']

end Comp30023.Interface
