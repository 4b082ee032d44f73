import Comp30023.Interface.ShellStrings
import Comp30023.Library.Outcome
import Mathlib.Tactic.NormNum

/-!
# Scanning a line

`strscan` takes a `read` that returns 0 for a character that was read. Behind the end of the
stream the loop therefore goes on over the memory that happens to be there, and stops at a
newline of that memory or, when `maxslen` cannot be doubled any more, with an overflow. Only a
newline in the stream, before this limit, makes it return the line whatever the memory holds.
-/

set_option autoImplicit false

namespace Comp30023.Analysis

open Comp30023.Library Comp30023.Model Comp30023.Interface

variable {stream : List UInt8} {indeterminate : ℕ → UInt8} {scan : Scan}

/-- `strscan` returns, has stored inside of the array only, whose size is one more than
`maxslen`, and the array begins with the bytes before the first newline, or before the end of
the stream if there is no newline, and a null byte. -/
def ScansLine (stream : List UInt8) (indeterminate : ℕ → UInt8) : Prop :=
  (∀ scan, Reaches (scanPass indeterminate) (Scan.initial indeterminate stream) scan →
    scan.s.length = scan.maxslen + 1) ∧
  ∃ scan, Exits (scanPass indeterminate) (Scan.initial indeterminate stream) scan ∧
    stream.takeWhile (· ≠ newline) ++ [0] <+: scan.s

/-- The byte that the loop finds at a position: that of the stream, or what the memory holds. -/
def seenAt (stream : List UInt8) (indeterminate : ℕ → UInt8) (k : ℕ) : UInt8 :=
  stream[k]?.getD (indeterminate k)

/-- The bytes from one position to another, as `f` gives them. -/
def bytesOf (f : ℕ → UInt8) (start size : ℕ) : List UInt8 := (List.range' start size).map f

/-- The state after `slen` passes that have found no newline. -/
structure Scanned (stream : List UInt8) (indeterminate : ℕ → UInt8) (scan : Scan) : Prop where
  left : scan.stdin = stream.drop scan.slen
  array : scan.s = bytesOf (seenAt stream indeterminate) 0 scan.slen ++
    bytesOf indeterminate scan.slen (scan.maxslen + 1 - scan.slen)
  bound : scan.slen ≤ scan.maxslen
  doubled : ∃ j ≤ 24, scan.maxslen = 64 * 2 ^ j
  searched : ∀ k < scan.slen, seenAt stream indeterminate k ≠ newline

/-- INTERNAL: the bytes up to a position, and one more. -/
theorem bytesOf_succ (f : ℕ → UInt8) (n : ℕ) : bytesOf f 0 (n + 1) = bytesOf f 0 n ++ [f n] := by
  simp [bytesOf, List.range'_concat]

/-- INTERNAL: one byte, and those behind it. -/
theorem bytesOf_cons (f : ℕ → UInt8) {start size : ℕ} (h : 0 < size) :
    bytesOf f start size = f start :: bytesOf f (start + 1) (size - 1) := by
  obtain ⟨size, rfl⟩ := Nat.exists_eq_add_one.mpr h
  simp [bytesOf, List.range'_succ]

/-- INTERNAL: bytes that follow on each other. -/
theorem bytesOf_append (f : ℕ → UInt8) (start m n : ℕ) :
    bytesOf f start m ++ bytesOf f (start + m) n = bytesOf f start (m + n) := by
  simp [bytesOf, ← List.map_append, List.range'_append_1]

@[simp] theorem length_bytesOf (f : ℕ → UInt8) (start size : ℕ) :
    (bytesOf f start size).length = size := by
  simp [bytesOf]

/-- INTERNAL: the state in which the loop is entered.
SOURCE: my-shell.c:135-144 -/
theorem scanned_initial (stream : List UInt8) (indeterminate : ℕ → UInt8) :
    Scanned stream indeterminate (Scan.initial indeterminate stream) := by
  refine ⟨rfl, rfl, Nat.zero_le _, ⟨0, by decide, rfl⟩, ?_⟩
  intro k hk
  cases hk

/-- INTERNAL: the array has one byte more than `maxslen`. -/
theorem Scanned.capacity (h : Scanned stream indeterminate scan) :
    scan.s.length = scan.maxslen + 1 := by
  have hbound := h.bound
  rw [h.array, List.length_append, length_bytesOf, length_bytesOf]
  omega

/-- INTERNAL: while a newline can still be found, there is room for another byte.
SOURCE: my-shell.c:148-158 -/
theorem Scanned.reserve (h : Scanned stream indeterminate scan) (hlt : scan.slen < 2 ^ 30) :
    ∃ scan', scan.reserve indeterminate = .ok scan' ∧ Scanned stream indeterminate scan' ∧
      scan'.slen = scan.slen ∧ scan.slen < scan'.maxslen := by
  have hbound := h.bound
  unfold Scan.reserve
  split
  case isTrue hfull =>
    obtain ⟨j, hj, hmax⟩ := h.doubled
    have hj' : j + 1 ≤ 24 := by
      by_contra hlast
      obtain rfl : j = 24 := by omega
      omega
    have hfits : scan.maxslen * strscanStrLenGrowFactor ≤ intMax := by
      have : 2 ^ (j + 1) ≤ 2 ^ 24 := Nat.pow_le_pow_right (by decide) hj'
      simp only [strscanStrLenGrowFactor, intMax, hmax, pow_succ] at this ⊢
      omega
    refine ⟨_, if_pos hfits, ⟨h.left, ?_, ?_, ⟨j + 1, hj', ?_⟩, h.searched⟩, rfl, ?_⟩
    · have hsize : scan.s.length = scan.slen + (scan.maxslen + 1 - scan.slen) := by
        rw [h.capacity]
        omega
      rw [growBytes, hsize, h.array, List.append_assoc]
      simp only [strscanStrLenGrowFactor]
      rw [← bytesOf, bytesOf_append]
      congr 2
      omega
    · simp only [strscanStrLenGrowFactor]
      omega
    · simp only [strscanStrLenGrowFactor, hmax, pow_succ]
      omega
    · have : 0 < scan.maxslen := by rw [hmax]; positivity
      simp only [strscanStrLenGrowFactor]
      omega
  case isFalse hroom => exact ⟨scan, rfl, h, rfl, by omega⟩

/-- INTERNAL: behind the end of the stream the byte that was there is taken for the byte read.
SOURCE: my-shell.c:160-165 -/
theorem Scanned.readByte (h : Scanned stream indeterminate scan) (hroom : scan.slen < scan.maxslen) :
    scan.readByte = .ok { scan with
      stdin := stream.drop (scan.slen + 1)
      s := bytesOf (seenAt stream indeterminate) 0 scan.slen ++
        seenAt stream indeterminate scan.slen ::
          bytesOf indeterminate (scan.slen + 1) (scan.maxslen - scan.slen) } := by
  have harray := h.array
  rw [bytesOf_cons indeterminate (by omega)] at harray
  have hsize : scan.maxslen + 1 - scan.slen - 1 = scan.maxslen - scan.slen := by omega
  rw [hsize] at harray
  unfold Scan.readByte
  cases hdrop : stream.drop scan.slen with
  | nil =>
    have hend : stream.length ≤ scan.slen := List.drop_eq_nil_iff.mp hdrop
    have hseen : seenAt stream indeterminate scan.slen = indeterminate scan.slen := by
      rw [seenAt, List.getElem?_eq_none hend, Option.getD_none]
    have hleft : scan.stdin = [] := h.left.trans hdrop
    simp only [hleft, hseen, ← harray, List.drop_eq_nil_of_le (Nat.le_succ_of_le hend)]
    rw [← hleft]
  | cons c rest =>
    have hseen : seenAt stream indeterminate scan.slen = c := by
      rw [seenAt, ← List.head?_drop, hdrop]
      rfl
    have hrest : stream.drop (scan.slen + 1) = rest := by
      rw [← List.tail_drop, hdrop, List.tail_cons]
    simp only [h.left.trans hdrop, harray, hrest, hseen, bind, Except.bind,
      storeAt_append (bytesOf (seenAt stream indeterminate) 0 scan.slen) _ _ _
        (length_bytesOf _ _ _).symm]

/-- A pass finds the next byte, and ends the line there if it is a newline.
SOURCE: my-shell.c:146-174 -/
theorem Scanned.pass (h : Scanned stream indeterminate scan) (hlt : scan.slen < 2 ^ 30) :
    (seenAt stream indeterminate scan.slen = newline →
      ∃ scan', scanPass indeterminate scan = .ok (.done scan') ∧
        bytesOf (seenAt stream indeterminate) 0 scan.slen ++ [0] <+: scan'.s) ∧
    (seenAt stream indeterminate scan.slen ≠ newline →
      ∃ scan', scanPass indeterminate scan = .ok (.again scan') ∧
        Scanned stream indeterminate scan' ∧ scan'.slen = scan.slen + 1) := by
  obtain ⟨scan₁, hreserve, h₁, hslen, hroom⟩ := h.reserve hlt
  rw [← hslen] at hroom ⊢
  have hread := h₁.readByte hroom
  have hload := loadAt_append (bytesOf (seenAt stream indeterminate) 0 scan₁.slen)
    (seenAt stream indeterminate scan₁.slen)
    (bytesOf indeterminate (scan₁.slen + 1) (scan₁.maxslen - scan₁.slen))
    (length_bytesOf _ _ _).symm
  constructor
  · intro hfound
    rw [hfound] at hload hread
    have hstore := storeAt_append (bytesOf (seenAt stream indeterminate) 0 scan₁.slen) newline 0
      (bytesOf indeterminate (scan₁.slen + 1) (scan₁.maxslen - scan₁.slen))
      (length_bytesOf _ _ _).symm
    refine ⟨{ stdin := stream.drop (scan₁.slen + 1)
              s := bytesOf (seenAt stream indeterminate) 0 scan₁.slen ++
                0 :: bytesOf indeterminate (scan₁.slen + 1) (scan₁.maxslen - scan₁.slen)
              slen := scan₁.slen + 1
              maxslen := scan₁.maxslen }, ?_, ?_⟩
    · simp only [scanPass, hreserve, hread, bind, Except.bind, Nat.add_sub_cancel, hload, if_true,
        hstore]
    · exact ⟨bytesOf indeterminate (scan₁.slen + 1) (scan₁.maxslen - scan₁.slen), by simp⟩
  · intro hother
    refine ⟨{ stdin := stream.drop (scan₁.slen + 1)
              s := bytesOf (seenAt stream indeterminate) 0 scan₁.slen ++
                seenAt stream indeterminate scan₁.slen ::
                  bytesOf indeterminate (scan₁.slen + 1) (scan₁.maxslen - scan₁.slen)
              slen := scan₁.slen + 1
              maxslen := scan₁.maxslen }, ?_, ?_, ?_⟩
    · simp only [scanPass, hreserve, hread, bind, Except.bind, Nat.add_sub_cancel, hload,
        if_neg hother]
    · refine ⟨rfl, ?_, hroom, h₁.doubled, ?_⟩
      · simp [bytesOf_succ]
      · intro k hk
        rcases Nat.lt_succ_iff_lt_or_eq.mp hk with hk | rfl
        · exact h₁.searched k hk
        · exact hother
    · rfl

/-- INTERNAL: a full array that cannot be doubled.
SOURCE: my-shell.c:148-158 -/
theorem Scanned.overflow (h : Scanned stream indeterminate scan) (hlimit : 2 ^ 30 ≤ scan.slen) :
    scanPass indeterminate scan = .error .intOverflow := by
  have hbound := h.bound
  obtain ⟨j, hj, hmax⟩ := h.doubled
  have hpow : 2 ^ j ≤ 2 ^ 24 := Nat.pow_le_pow_right (by decide) hj
  have hfull : scan.slen ≥ scan.maxslen := by omega
  have hlarge : ¬ scan.maxslen * strscanStrLenGrowFactor ≤ intMax := by
    simp only [strscanStrLenGrowFactor, intMax]
    omega
  simp only [scanPass, Scan.reserve, if_pos hfull, if_neg hlarge]
  rfl

/-- INTERNAL: a pass that goes round again has found no newline.
SOURCE: my-shell.c:146-174 -/
theorem Scanned.again {scan' : Scan} (h : Scanned stream indeterminate scan)
    (hpass : scanPass indeterminate scan = .ok (.again scan')) :
    Scanned stream indeterminate scan' := by
  by_cases hlt : scan.slen < 2 ^ 30
  · by_cases hseen : seenAt stream indeterminate scan.slen = newline
    · obtain ⟨t, hdone, -⟩ := (h.pass hlt).1 hseen
      simp [hdone] at hpass
    · obtain ⟨t, hagain, ht, -⟩ := (h.pass hlt).2 hseen
      obtain rfl : t = scan' := by simpa [hagain] using hpass
      exact ht
  · simp [h.overflow (by omega)] at hpass

/-- The loop is left at the first newline that it finds, in the stream or in the memory.
SOURCE: my-shell.c:146-174 -/
theorem Scanned.exits {k : ℕ} (h : Scanned stream indeterminate scan) (hk : k < 2 ^ 30)
    (hle : scan.slen ≤ k) (hfirst : ∀ i < k, seenAt stream indeterminate i ≠ newline)
    (hfound : seenAt stream indeterminate k = newline) :
    ∃ scan', Exits (scanPass indeterminate) scan scan' ∧
      bytesOf (seenAt stream indeterminate) 0 k ++ [0] <+: scan'.s := by
  obtain ⟨d, rfl⟩ := Nat.exists_eq_add_of_le hle
  induction d generalizing scan with
  | zero =>
    obtain ⟨scan', hdone, harray⟩ := (h.pass hk).1 hfound
    exact ⟨scan', exits_of_done hdone, harray⟩
  | succ d ih =>
    obtain ⟨scan₁, hagain, h₁, hslen⟩ := (h.pass (by omega)).2 (hfirst _ (by omega))
    have heq : scan.slen + (d + 1) = scan₁.slen + d := by omega
    rw [heq] at hk hfirst hfound ⊢
    obtain ⟨scan', hexits, harray⟩ := ih h₁ hk (by omega) hfirst hfound
    exact ⟨scan', exits_of_again hagain hexits, harray⟩

/-- Without a newline in the stream or in the memory the loop is never left.
SOURCE: my-shell.c:146-174 -/
theorem not_exits_of_not_seen (hseen : ∀ k < 2 ^ 30, seenAt stream indeterminate k ≠ newline)
    (scan : Scan) :
    ¬ Exits (scanPass indeterminate) (Scan.initial indeterminate stream) scan := by
  refine not_exits_of_invariant (fun _ _ h hpass => h.again hpass) ?_
    (scanned_initial stream indeterminate) scan
  intro u v h hdone
  by_cases hlt : u.slen < 2 ^ 30
  · obtain ⟨t, hagain, -⟩ := (h.pass hlt).2 (hseen _ hlt)
    simp [hagain] at hdone
  · simp [h.overflow (by omega)] at hdone

/-- INTERNAL: the line before a newline that is read before the limit.
SOURCE: my-shell.c:133-177 -/
theorem scansLine_of_newline (hnewline : newline ∈ stream.take (2 ^ 30))
    (indeterminate : ℕ → UInt8) : ScansLine stream indeterminate := by
  obtain ⟨text, rest, htake, hline⟩ := List.eq_append_cons_of_mem hnewline
  have hstream : stream = text ++ newline :: (rest ++ stream.drop (2 ^ 30)) := by
    rw [← List.cons_append, ← List.append_assoc, ← htake, List.take_append_drop]
  have hlength : text.length < 2 ^ 30 := by
    have := congrArg List.length htake
    rw [List.length_append, List.length_cons, List.length_take] at this
    omega
  generalize rest ++ stream.drop (2 ^ 30) = rest at hstream
  subst hstream
  have hseen : ∀ i (hi : i < text.length),
      seenAt (text ++ newline :: rest) indeterminate i = text[i] := by
    intro i hi
    rw [seenAt, List.getElem?_append_left hi, List.getElem?_eq_getElem hi, Option.getD_some]
  have hbytes : bytesOf (seenAt (text ++ newline :: rest) indeterminate) 0 text.length = text := by
    refine List.ext_getElem (length_bytesOf _ _ _) ?_
    intro i hi hi'
    simp only [bytesOf, List.getElem_map, List.getElem_range', Nat.zero_add, Nat.one_mul]
    exact hseen i hi'
  have hend : seenAt (text ++ newline :: rest) indeterminate text.length = newline := by
    rw [seenAt, List.getElem?_append_right (Nat.le_refl _), Nat.sub_self]
    rfl
  have htakeWhile : (text ++ newline :: rest).takeWhile (· ≠ newline) = text := by
    rw [List.takeWhile_append_of_pos]
    · simp
    · intro c hc
      simpa using ne_of_mem_of_not_mem hc hline
  refine ⟨fun scan hreach => ?_, ?_⟩
  · exact (hreach.invariant (fun _ _ h hpass => h.again hpass) (scanned_initial _ _)).capacity
  · obtain ⟨scan, hexits, harray⟩ := (scanned_initial (text ++ newline :: rest) indeterminate).exits
      hlength (Nat.zero_le _) (fun i hi => hseen i hi ▸ fun h => hline (h ▸ List.getElem_mem hi)) hend
    rw [hbytes] at harray
    exact ⟨scan, hexits, by rwa [htakeWhile]⟩

/-- INTERNAL: in memory without newlines, the loop is never left if it finds none in the stream
before the limit.
SOURCE: my-shell.c:133-177 -/
theorem not_exits_of_not_newline (hnewline : newline ∉ stream.take (2 ^ 30)) (scan : Scan) :
    ¬ Exits (scanPass fun _ => 0) (Scan.initial (fun _ => 0) stream) scan := by
  refine not_exits_of_not_seen ?_ scan
  intro k hk hseen
  rw [seenAt] at hseen
  cases hget : stream[k]? with
  | none =>
    rw [hget] at hseen
    exact absurd hseen (by decide)
  | some c =>
    obtain rfl : c = newline := by simpa [hget] using hseen
    exact hnewline (List.mem_of_getElem? (List.getElem?_take_of_lt hk ▸ hget))

/-- **When a line is scanned.** For every stream: `strscan` returns the bytes before the first
newline, or before the end of the stream, with a null byte behind them, whatever the memory
holds that `malloc` and `realloc` return, if and only if there is a newline among the first
`2 ^ 30` bytes of the stream.
SOURCE: my-shell.c:133-177 -/
theorem scans_line_iff (stream : List UInt8) :
    (∀ indeterminate, ScansLine stream indeterminate) ↔ newline ∈ stream.take (2 ^ 30) := by
  constructor
  · intro hscans
    by_contra hnewline
    obtain ⟨-, scan, hexits, -⟩ := hscans fun _ => 0
    exact not_exits_of_not_newline hnewline scan hexits
  · exact scansLine_of_newline

/-- The stream ends behind `ls`, without a newline, and the memory is zero: there is no return.
SOURCE: my-shell.c:133-177 -/
theorem scan_of_unended_line :
    (∀ scan, ¬ Exits (scanPass fun _ => 0) (Scan.initial (fun _ => 0) [108, 115]) scan) ∧
      ¬ ScansLine [108, 115] fun _ => 0 := by
  have hnewline : newline ∉ ([108, 115] : List UInt8).take (2 ^ 30) := fun hmem =>
    absurd (List.mem_of_mem_take hmem) (by decide)
  refine ⟨not_exits_of_not_newline hnewline, ?_⟩
  rintro ⟨-, scan, hexits, -⟩
  exact not_exits_of_not_newline hnewline scan hexits

end Comp30023.Analysis
