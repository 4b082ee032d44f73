import Comp30023.Interface.DecimalText
import Comp30023.Interface.ParsedLines

/-!
# Files of records

A list of scheduled processes is written one to a line, and the parser's view of such a file,
its lines and their tokens, is the list again.
-/

set_option autoImplicit false

namespace Comp30023.Interface

open Comp30023.Library Comp30023.Model

/-- A scheduled process as a line, without the newline. -/
def lineOf (record : ScheduledProcess) : List UInt8 :=
  ascii s!"{record.startTime} {record.processId} {record.memorySize} {record.jobTime}"

/-- The file with these records. The newline at its end may be missing. -/
def fileOf (records : List ScheduledProcess) (hasFinalNewline : Bool) : List UInt8 :=
  let file := records.flatMap fun record => lineOf record ++ [newline]
  if hasFinalNewline then file else file.dropLast

/-- All numbers of the record are of the type `int`. -/
def IsRecord (record : ScheduledProcess) : Prop :=
  IsInt record.startTime ∧ IsInt record.processId ∧ IsInt record.memorySize ∧
    IsInt record.jobTime

instance decidableIsRecord (record : ScheduledProcess) : Decidable (IsRecord record) :=
  inferInstanceAs (Decidable (_ ∧ _))

/-! ## Lines -/

/-- INTERNAL: a line is its four numbers with a blank between them. -/
theorem lineOf_eq (record : ScheduledProcess) :
    lineOf record = decimal record.startTime ++ 32 :: (decimal record.processId ++
      32 :: (decimal record.memorySize ++ 32 :: decimal record.jobTime)) := by
  have hblank : ascii (toString " ") = [32] := rfl
  simp [lineOf, ascii_append, hblank, decimal]

/-- INTERNAL: the characters of a line. -/
theorem mem_lineOf {record : ScheduledProcess} {c : UInt8} (h : c ∈ lineOf record) :
    c = 32 ∨ c = 45 ∨ isDigit c = true := by
  rw [lineOf_eq] at h
  simp only [List.mem_append, List.mem_cons] at h
  rcases h with h | h | h | h | h | h | h
  · exact Or.inr (mem_decimal h)
  · exact Or.inl h
  · exact Or.inr (mem_decimal h)
  · exact Or.inl h
  · exact Or.inr (mem_decimal h)
  · exact Or.inl h
  · exact Or.inr (mem_decimal h)

theorem newline_not_mem_lineOf (record : ScheduledProcess) : newline ∉ lineOf record := by
  intro h
  exact absurd (mem_lineOf h) (by decide)

theorem zero_not_mem_lineOf (record : ScheduledProcess) : 0 ∉ lineOf record := by
  intro h
  exact absurd (mem_lineOf h) (by decide)

theorem lineOf_ne_nil (record : ScheduledProcess) : lineOf record ≠ [] := by
  simp [lineOf_eq]

theorem length_lineOf {record : ScheduledProcess} (h : IsRecord record) :
    (lineOf record).length ≤ 47 := by
  have hstart := length_decimal h.1
  have hid := length_decimal h.2.1
  have hmemory := length_decimal h.2.2.1
  have hjob := length_decimal h.2.2.2
  rw [lineOf_eq]
  simp only [List.length_append, List.length_cons]
  omega

/-- INTERNAL: a number is one token. -/
theorem not_delimiter_of_mem_decimal {z : ℤ} {c : UInt8} (h : c ∈ decimal z) :
    tokenDelimiter.contains c = false := by
  cases hc : tokenDelimiter.contains c with
  | false => rfl
  | true =>
    have hblank : c = 32 := by simpa [tokenDelimiter] using hc
    rw [hblank] at h
    exact absurd (mem_decimal h) (by decide)

/-- INTERNAL: the tokens of a line are its numbers; what comes behind the last one belongs to
it. -/
theorem tokensOf_lineOf (record : ScheduledProcess) {tail : List UInt8}
    (htail : ∀ c ∈ tail, tokenDelimiter.contains c = false) :
    tokensOf (lineOf record ++ tail) = [decimal record.startTime, decimal record.processId,
      decimal record.memorySize, decimal record.jobTime ++ tail] := by
  have hlast : ∀ c ∈ decimal record.jobTime ++ tail, tokenDelimiter.contains c = false := by
    intro c hc
    rw [List.mem_append] at hc
    exact hc.elim not_delimiter_of_mem_decimal (htail c)
  have hne : decimal record.jobTime ++ tail ≠ [] := by simp [decimal_ne_nil]
  have hblank : tokenDelimiter.contains 32 = true := rfl
  rw [lineOf_eq, tokensOf]
  simp only [List.append_assoc, List.cons_append]
  rw [words_append _ (decimal_ne_nil _) (fun c hc => not_delimiter_of_mem_decimal hc) hblank,
    words_append _ (decimal_ne_nil _) (fun c hc => not_delimiter_of_mem_decimal hc) hblank,
    words_append _ (decimal_ne_nil _) (fun c hc => not_delimiter_of_mem_decimal hc) hblank,
    words_word hne hlast]

/-- INTERNAL: what may come behind the last number is neither a blank nor a digit. -/
theorem of_tail {tail : List UInt8} (h : tail = [] ∨ tail = [newline]) :
    (∀ c ∈ tail, tokenDelimiter.contains c = false) ∧ ∀ c ∈ tail.head?, isDigit c = false := by
  rcases h with rfl | rfl
  · simp
  · have hdelimiter : tokenDelimiter.contains newline = false := rfl
    have hdigit : isDigit newline = false := rfl
    refine ⟨?_, ?_⟩
    · intro c hc
      rw [List.mem_singleton.mp hc]
      exact hdelimiter
    · intro c hc
      rw [← Option.some.inj hc]
      exact hdigit

/-- The line was written for the record. -/
structure WrittenFor (line : List UInt8) (record : ScheduledProcess) : Prop where
  isRecord : IsRecord record
  text : ∃ tail, (tail = [] ∨ tail = [newline]) ∧ line = lineOf record ++ tail

/-- INTERNAL: what the parser wants of a line. -/
theorem WrittenFor.fits {line : List UInt8} {record : ScheduledProcess}
    (h : WrittenFor line record) :
    0 ∉ line ∧ line.length ≤ lineMaxLen - 1 ∧ (tokensOf line).length ≠ 3 := by
  obtain ⟨tail, htail, rfl⟩ := h.text
  have hzero : 0 ∉ tail := by rcases htail with rfl | rfl <;> decide
  have hshort : tail.length ≤ 1 := by rcases htail with rfl | rfl <;> decide
  refine ⟨?_, ?_, ?_⟩
  · rw [List.mem_append, not_or]
    exact ⟨zero_not_mem_lineOf record, hzero⟩
  · have hlength := length_lineOf h.isRecord
    rw [List.length_append, lineMaxLen]
    omega
  · rw [tokensOf_lineOf record (of_tail htail).1]
    simp

/-- A line is read as the record it was written for, with its newline or without. -/
theorem WrittenFor.recordOf_eq {line : List UInt8} {record : ScheduledProcess}
    (h : WrittenFor line record) : recordOf line = some record := by
  obtain ⟨⟨hstart, hid, hmemory, hjob⟩, tail, htail, rfl⟩ := h
  obtain ⟨hdelimiter, hdigit⟩ := of_tail htail
  have hatoi : ∀ {z : ℤ}, IsInt z → atoi (decimal z) = z := by
    intro z hz
    simpa using atoi_decimal hz (of_tail (Or.inl rfl)).2
  rw [recordOf, tokensOf_lineOf record hdelimiter]
  simp only [hatoi hstart, hatoi hid, hatoi hmemory, atoi_decimal hjob hdigit]

/-! ## Files -/

/-- INTERNAL: the first line of a file. -/
theorem fileOf_cons (record : ScheduledProcess) (records : List ScheduledProcess)
    (hasFinalNewline : Bool) :
    fileOf (record :: records) hasFinalNewline =
      if records = [] ∧ hasFinalNewline = false then lineOf record
      else lineOf record ++ newline :: fileOf records hasFinalNewline := by
  cases hasFinalNewline with
  | true => simp [fileOf]
  | false =>
    cases records with
    | nil => simp [fileOf]
    | cons next records =>
      have hne : (next :: records).flatMap (fun record => lineOf record ++ [newline]) ≠ [] := by
        simp
      rw [if_neg (by simp), fileOf, fileOf, List.flatMap_cons]
      generalize (next :: records).flatMap (fun record => lineOf record ++ [newline]) = rest at hne
      simp only [Bool.false_eq_true, if_false, List.append_assoc, List.singleton_append]
      rw [List.dropLast_append_cons, List.dropLast_cons_of_ne_nil hne]

/-- The lines of a file are those of its records. -/
theorem linesOf_fileOf {records : List ScheduledProcess}
    (h : ∀ record ∈ records, IsRecord record) (hasFinalNewline : Bool) :
    List.Forall₂ WrittenFor (linesOfFile (fileOf records hasFinalNewline)) records := by
  induction records with
  | nil =>
    have hempty : fileOf [] hasFinalNewline = [] := by cases hasFinalNewline <;> rfl
    rw [hempty]
    exact List.Forall₂.nil
  | cons record records ih =>
    rw [List.forall_mem_cons] at h
    rw [fileOf_cons]
    split
    case isTrue hlast =>
      rw [hlast.1, linesOfFile, linesOf_singleton (lineOf_ne_nil record)
        (newline_not_mem_lineOf record)]
      exact List.Forall₂.cons ⟨h.1, [], Or.inl rfl, (List.append_nil _).symm⟩ List.Forall₂.nil
    case isFalse =>
      rw [linesOfFile, linesOf_append _ (newline_not_mem_lineOf record)]
      exact List.Forall₂.cons ⟨h.1, [newline], Or.inr rfl, rfl⟩ (ih h.2)

/-- INTERNAL: all lines of a file of records are as the parser wants them, and are read as the
records. -/
theorem fileOf_fits {records : List ScheduledProcess} (h : ∀ record ∈ records, IsRecord record)
    (hasFinalNewline : Bool) :
    (∀ line ∈ linesOfFile (fileOf records hasFinalNewline),
        0 ∉ line ∧ line.length ≤ lineMaxLen - 1 ∧ (tokensOf line).length ≠ 3) ∧
      List.Forall₂ (fun line record => recordOf line = some record)
        (linesOfFile (fileOf records hasFinalNewline)) records := by
  apply (List.forall₂_and_left _ _).mp
  exact (linesOf_fileOf h hasFinalNewline).imp fun _ _ hline => ⟨hline.fits, hline.recordOf_eq⟩

end Comp30023.Interface
