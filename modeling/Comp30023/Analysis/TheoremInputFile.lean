import Comp30023.Interface.RecordFile

/-!
# The input file

What the parser gets right. It reads back any file that was written for a list of records; it
passes over lines with too few tokens, but takes three tokens and a null pointer for four; it
makes one record of one line as long as `fgets` does not cut the line in a place where that is
noticed. And there may be no more records than an array can be allocated for whose size is an
`int`.
-/

set_option autoImplicit false

namespace Comp30023.Analysis

open Comp30023.Library Comp30023.Model Comp30023.Interface

/-! ## Records and lines -/

/-- INTERNAL: the elements that a list is mapped to one by one. -/
theorem filterMap_eq_of_forall₂ {α β : Type} {f : α → Option β} {l : List α} {bs : List β}
    (h : List.Forall₂ (fun a b => f a = some b) l bs) : l.filterMap f = bs := by
  induction h with
  | nil => rfl
  | cons hab _ ih => rw [List.filterMap_cons_some hab, ih]

/-- INTERNAL: the parser on a file whose lines are short.
SOURCE: process-data-file-parser.c:40-111 -/
theorem parses_lines_iff {file : List UInt8} (hzero : 0 ∉ file)
    (hshort : ∀ line ∈ linesOfFile file, line.length ≤ lineMaxLen - 1)
    (records : List ScheduledProcess) :
    Parses file records ↔
      (linesOfFile file).filterMap recordOf = records ∧
        (∀ line ∈ linesOfFile file, (tokensOf line).length ≠ 3) ∧
        records.length ≤ maxRecords := by
  rw [parses_iff hzero, piecesOfFile_eq hshort]

/-- INTERNAL: a file is a text if its lines are. -/
theorem zero_not_mem_iff (file : List UInt8) :
    0 ∉ file ↔ ∀ line ∈ linesOfFile file, 0 ∉ line := by
  have hmem := List.mem_flatten (a := (0 : UInt8)) (L := linesOfFile file)
  rw [linesOfFile, flatten_linesOf] at hmem
  rw [linesOfFile, hmem]
  simp

/-! ## Files of records -/

/-- A file that was written for a list of records is read back as this list, and all stores on
the way are inside of the array, if and only if there are not too many of them.
SOURCE: process-data-file-parser.c:40-111 -/
theorem input_file_round_trip_iff {records : List ScheduledProcess}
    (h : ∀ record ∈ records, IsRecord record) (hasFinalNewline : Bool) :
    Parses (fileOf records hasFinalNewline) records ∧
        StaysInside (fileOf records hasFinalNewline) ↔
      records.length ≤ maxRecords := by
  obtain ⟨hfits, hrecords⟩ := fileOf_fits h hasFinalNewline
  generalize fileOf records hasFinalNewline = file at hfits hrecords
  have hzero : 0 ∉ file := (zero_not_mem_iff file).mpr fun line hline => (hfits line hline).1
  rw [parses_lines_iff hzero fun line hline => (hfits line hline).2.1]
  constructor
  · rintro ⟨⟨-, -, hlength⟩, -⟩
    exact hlength
  · intro hlength
    exact ⟨⟨filterMap_eq_of_forall₂ hrecords, fun line hline => (hfits line hline).2.2, hlength⟩,
      staysInside hzero⟩

theorem input_file_round_trip_two :
    Parses (fileOf [⟨0, 1, 100, 5⟩, ⟨3, -2147483648, 2147483647, -40⟩] false)
      [⟨0, 1, 100, 5⟩, ⟨3, -2147483648, 2147483647, -40⟩] :=
  ((input_file_round_trip_iff (by decide) false).mpr (by decide)).1

/-- One more record than can be counted. -/
theorem too_many_records :
    (∀ record ∈ List.replicate (maxRecords + 1) ⟨0, 1, 1, 1⟩, IsRecord record) ∧
      ¬Parses (fileOf (List.replicate (maxRecords + 1) ⟨0, 1, 1, 1⟩) true)
        (List.replicate (maxRecords + 1) ⟨0, 1, 1, 1⟩) := by
  have hrecord : ∀ record ∈ List.replicate (maxRecords + 1) (⟨0, 1, 1, 1⟩ : ScheduledProcess),
      IsRecord record := by
    intro record hmem
    rw [List.eq_of_mem_replicate hmem]
    decide
  refine ⟨hrecord, ?_⟩
  intro hparses
  have hzero : 0 ∉ fileOf (List.replicate (maxRecords + 1) ⟨0, 1, 1, 1⟩) true :=
    (zero_not_mem_iff _).mpr fun line hline => ((fileOf_fits hrecord true).1 line hline).1
  have hlength := ((parses_iff hzero _).mp hparses).2.2
  rw [List.length_replicate] at hlength
  omega

/-! ## Lines with too few tokens -/

/-- If all lines are short, the parser returns the records of the lines with at least four
tokens if and only if no line has exactly three, whose null pointer goes to `atoi`, and there
are not too many records.
SOURCE: process-data-file-parser.c:62-105 -/
theorem malformed_lines_skipped_iff {file : List UInt8} (hzero : 0 ∉ file)
    (hshort : ∀ line ∈ linesOfFile file, line.length < lineMaxLen - 1) :
    Parses file ((linesOfFile file).filterMap recordOf) ↔
      (∀ line ∈ linesOfFile file, (tokensOf line).length ≠ 3) ∧
        ((linesOfFile file).filter fun line => tokensLen ≤ (tokensOf line).length).length ≤
          maxRecords := by
  have hcount : ((linesOfFile file).filterMap recordOf).length =
      ((linesOfFile file).filter fun line => tokensLen ≤ (tokensOf line).length).length := by
    rw [List.length_filterMap_eq_countP, List.countP_eq_length_filter]
    congr 2
    funext line
    exact Bool.eq_iff_iff.mpr (by simpa using recordOf_isSome line)
  rw [parses_lines_iff hzero fun line hline => Nat.le_of_lt (hshort line hline), hcount]
  exact and_iff_right rfl

/-- Lines without enough tokens among others; the newline behind a blank counts as a token. -/
theorem malformed_lines_skipped_some :
    Parses (ascii "1 2\n0 1 100 5\n\n 3 2 50 \n")
      [⟨0, 1, 100, 5⟩, ⟨3, 2, 50, 0⟩] :=
  (malformed_lines_skipped_iff (by decide +kernel) (by decide +kernel)).mpr (by decide +kernel)

/-- A line with three tokens. -/
theorem three_tokens_fault :
    0 ∉ ascii "1 2 3\n" ∧
      (∀ line ∈ linesOfFile (ascii "1 2 3\n"), line.length < lineMaxLen - 1) ∧
      parseProcessDataFile (ascii "1 2 3\n") = .error .atoiOfNull ∧
      ¬Parses (ascii "1 2 3\n") ((linesOfFile (ascii "1 2 3\n")).filterMap recordOf) := by
  have hfault : parseProcessDataFile (ascii "1 2 3\n") = .error .atoiOfNull := by decide +kernel
  refine ⟨by decide +kernel, by decide +kernel, hfault, ?_⟩
  rintro ⟨slots, hparse, -⟩
  rw [hfault] at hparse
  exact absurd hparse (by simp)

/-! ## Lines that are cut -/

/-- The parser makes one record of each line, of its first four tokens, and gets the same from
the file as from its lines one by one. -/
def OneRecordPerLine (file : List UInt8) : Prop :=
  ∃ records, List.Forall₂ (fun line record => recordOf line = some record ∧ Parses line [record])
    (linesOfFile file) records ∧ Parses file records

/-- One of the pieces in which the line is read begins with the same four numbers as the line,
and the others have so few tokens that they are passed over. -/
def CutHarmlessly (line : List UInt8) : Prop :=
  ∃ before piece after, piecesOfFile line = before ++ piece :: after ∧
    recordOf piece = recordOf line ∧ ∀ other ∈ before ++ after, (tokensOf other).length < 3

/-- INTERNAL: a piece that is passed over has fewer than three tokens, and no record. -/
theorem tokensOf_lt_three_iff (piece : List UInt8) :
    (tokensOf piece).length < 3 ↔ recordOf piece = none ∧ (tokensOf piece).length ≠ 3 := by
  have hsome := recordOf_isSome piece
  rw [tokensLen] at hsome
  rw [← Option.not_isSome_iff_eq_none, hsome]
  omega

/-- INTERNAL: a line with a record is parsed as this record if and only if it is cut
harmlessly. -/
theorem parses_line_iff {line : List UInt8} (hzero : 0 ∉ line) {record : ScheduledProcess}
    (hrecord : recordOf line = some record) : Parses line [record] ↔ CutHarmlessly line := by
  rw [parses_iff hzero]
  unfold CutHarmlessly
  constructor
  · rintro ⟨hpieces, htokens, -⟩
    obtain ⟨before, piece, after, heq, hbefore, hpiece, hafter⟩ :=
      List.filterMap_eq_cons_iff.mp hpieces
    rw [List.filterMap_eq_nil_iff] at hafter
    refine ⟨before, piece, after, heq, hpiece.trans hrecord.symm, ?_⟩
    intro other hother
    rw [tokensOf_lt_three_iff]
    have hmem : other ∈ piecesOfFile line := by
      rw [heq, List.mem_append, List.mem_cons]
      rw [List.mem_append] at hother
      exact hother.imp_right Or.inr
    refine ⟨?_, htokens other hmem⟩
    rcases List.mem_append.mp hother with hother | hother
    · exact hbefore other hother
    · exact hafter other hother
  · rintro ⟨before, piece, after, heq, hpiece, hothers⟩
    rw [hrecord] at hpiece
    simp only [List.mem_append, tokensOf_lt_three_iff] at hothers
    refine ⟨?_, ?_, Nat.one_le_two_pow⟩
    · rw [heq]
      apply List.filterMap_eq_cons_iff.mpr
      refine ⟨before, piece, after, rfl, ?_, hpiece, ?_⟩
      · intro other hother
        exact (hothers other (Or.inl hother)).1
      · exact List.filterMap_eq_nil_iff.mpr fun other hother => (hothers other (Or.inr hother)).1
    · intro other hother
      rw [heq, List.mem_append, List.mem_cons] at hother
      rcases hother with hother | rfl | hother
      · exact (hothers other (Or.inl hother)).2
      · -- this piece has a record, so that it has four tokens
        have hfour := (recordOf_isSome other).mp (by rw [hpiece]; rfl)
        rw [tokensLen] at hfour
        omega
      · exact (hothers other (Or.inr hother)).2

/-- INTERNAL: the pieces of all lines, when each line alone is parsed as one record. -/
theorem pieces_of_lines {lines : List (List UInt8)} {records : List ScheduledProcess}
    (hzero : ∀ line ∈ lines, 0 ∉ line)
    (hlines : List.Forall₂ (fun line record => Parses line [record]) lines records) :
    (lines.flatMap piecesOfFile).filterMap recordOf = records ∧
      ∀ piece ∈ lines.flatMap piecesOfFile, (tokensOf piece).length ≠ 3 := by
  induction hlines with
  | nil => simp
  | cons hline _ ih =>
    rw [List.forall_mem_cons] at hzero
    obtain ⟨hrecord, htokens, -⟩ := (parses_iff hzero.1 _).mp hline
    obtain ⟨hrecords, hrest⟩ := ih hzero.2
    rw [List.flatMap_cons]
    refine ⟨?_, ?_⟩
    · rw [List.filterMap_append, hrecord, hrecords]
      rfl
    · intro piece hpiece
      exact (List.mem_append.mp hpiece).elim (htokens piece) (hrest piece)

/-- INTERNAL: the parser gets from a file what it gets from its lines. -/
theorem parses_of_lines {file : List UInt8} (hzero : 0 ∉ file) {records : List ScheduledProcess}
    (hlines : List.Forall₂ (fun line record => Parses line [record]) (linesOfFile file) records)
    (hlength : records.length ≤ maxRecords) : Parses file records := by
  have hpieces : piecesOfFile file = (linesOfFile file).flatMap piecesOfFile :=
    piecesOf_flatMap (lineMaxLen - 1) file
  obtain ⟨hrecords, htokens⟩ := pieces_of_lines ((zero_not_mem_iff file).mp hzero) hlines
  rw [parses_iff hzero, hpieces]
  exact ⟨hrecords, htokens, hlength⟩

/-- INTERNAL: a line that is not too long is not cut. -/
theorem cutHarmlessly_of_short {file line : List UInt8} (hline : line ∈ linesOfFile file)
    (hshort : line.length ≤ lineMaxLen - 1) : CutHarmlessly line := by
  obtain ⟨hne, hnewline⟩ := linesOf_line hline
  have hpieces : piecesOfFile line = [line] :=
    piecesOf_line (lineMaxLen - 1) hne hnewline hshort
  exact ⟨[], line, [], hpieces, rfl, by simp⟩

/-- INTERNAL: a list every element of which has a match. -/
theorem exists_forall₂ {α β : Type} {R : α → β → Prop} {l : List α}
    (h : ∀ a ∈ l, ∃ b, R a b) : ∃ bs, List.Forall₂ R l bs := by
  induction l with
  | nil => exact ⟨[], List.Forall₂.nil⟩
  | cons a l ih =>
    rw [List.forall_mem_cons] at h
    obtain ⟨b, hb⟩ := h.1
    obtain ⟨bs, hbs⟩ := ih h.2
    exact ⟨b :: bs, List.Forall₂.cons hb hbs⟩

/-- If all lines have at least four tokens, the parser makes one record of each if and only if
every line that is too long for `fgets` is cut in places where that does no harm, and there are
not too many lines.
SOURCE: process-data-file-parser.c:62-105 -/
theorem one_line_one_record_iff {file : List UInt8} (hzero : 0 ∉ file)
    (htokens : ∀ line ∈ linesOfFile file, tokensLen ≤ (tokensOf line).length) :
    OneRecordPerLine file ↔
      (∀ line ∈ linesOfFile file, lineMaxLen - 1 < line.length → CutHarmlessly line) ∧
        (linesOfFile file).length ≤ maxRecords := by
  have hzeros := (zero_not_mem_iff file).mp hzero
  constructor
  · rintro ⟨records, hlines, hfile⟩
    refine ⟨?_, ?_⟩
    · have hcut : List.Forall₂
          (fun line record => CutHarmlessly line ∧ recordOf line = some record)
          (linesOfFile file) records := by
        apply ((List.forall₂_and_left _ _).mpr ⟨hzeros, hlines⟩).imp
        rintro line record ⟨hzero, hrecord, hparses⟩
        exact ⟨(parses_line_iff hzero hrecord).mp hparses, hrecord⟩
      intro line hline _
      exact ((List.forall₂_and_left _ _).mp hcut).1 line hline
    · rw [hlines.length_eq]
      exact ((parses_iff hzero records).mp hfile).2.2
  · rintro ⟨hlong, hlength⟩
    have hmatch : ∀ line ∈ linesOfFile file,
        ∃ record, recordOf line = some record ∧ Parses line [record] := by
      intro line hline
      obtain ⟨record, hrecord⟩ :=
        Option.isSome_iff_exists.mp ((recordOf_isSome line).mpr (htokens line hline))
      refine ⟨record, hrecord, (parses_line_iff (hzeros line hline) hrecord).mpr ?_⟩
      by_cases hshort : line.length ≤ lineMaxLen - 1
      · exact cutHarmlessly_of_short hline hshort
      · exact hlong line hline (Nat.lt_of_not_le hshort)
    obtain ⟨records, hlines⟩ := exists_forall₂ hmatch
    refine ⟨records, hlines, ?_⟩
    rw [hlines.length_eq] at hlength
    exact parses_of_lines hzero (hlines.imp fun _ _ h => h.2) hlength

/-- A line with so many blanks at its end that only its newline is left for the next piece. -/
theorem one_line_one_record_padded :
    OneRecordPerLine (ascii "0 1 100 5" ++ List.replicate 90 32 ++ [newline]) := by
  apply (one_line_one_record_iff (by decide +kernel) (by decide +kernel)).mpr
  refine ⟨?_, by decide +kernel⟩
  have hlines : linesOfFile (ascii "0 1 100 5" ++ List.replicate 90 32 ++ [newline]) =
      [ascii "0 1 100 5" ++ List.replicate 90 32 ++ [newline]] := by decide +kernel
  intro line hline _
  rw [hlines, List.mem_singleton] at hline
  exact ⟨[], ascii "0 1 100 5" ++ List.replicate 90 32, [[newline]],
    by rw [hline]; decide +kernel, by rw [hline]; decide +kernel, by decide +kernel⟩

/-- Behind the blanks come more columns, which are taken for a record of their own. -/
theorem long_line_two_records :
    0 ∉ ascii "0 1 100 5" ++ List.replicate 90 32 ++ ascii "7 8 9 10\n" ∧
      (∀ line ∈ linesOfFile (ascii "0 1 100 5" ++ List.replicate 90 32 ++ ascii "7 8 9 10\n"),
        tokensLen ≤ (tokensOf line).length) ∧
      ¬OneRecordPerLine (ascii "0 1 100 5" ++ List.replicate 90 32 ++ ascii "7 8 9 10\n") := by
  have hzero : 0 ∉ ascii "0 1 100 5" ++ List.replicate 90 32 ++ ascii "7 8 9 10\n" := by
    decide +kernel
  refine ⟨hzero, by decide +kernel, ?_⟩
  rintro ⟨records, hlines, hfile⟩
  have htwo := ((parses_iff hzero records).mp hfile).1
  have hone := hlines.length_eq
  rw [← htwo] at hone
  exact absurd hone (by decide +kernel)

end Comp30023.Analysis
