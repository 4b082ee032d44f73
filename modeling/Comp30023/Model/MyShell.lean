import Comp30023.Library.Loop
import Comp30023.Model.CLibrary

/-!
# Strings of the shell

`strlen`, `strscan` and `strsplit` of `my-shell.c`. A C array is the list of its elements, and
an access outside of it is a fault. Memory fresh from the allocator holds what it happens to
hold: for the bytes of `strscan`, which are looked at before they are stored to, that is the
value `indeterminate` has at their position. `malloc` and `realloc` have memory to give, and
`read` meets the bytes of a stream and then, for ever, its end.

The numbers are of the type `int`, and one that leaves the type is a fault. This is looked at where
the source has nothing that keeps a number in it: where characters are counted, where there is to be
room for one character more, and where arrays are doubled. The other sums of `strsplit` are indices
and counts that are at most `origstrlen` or `maxstrarraylen`.
-/

set_option autoImplicit false

namespace Comp30023.Model

open Comp30023.Library

/-- What stops a call. -/
inductive ShellFault where
  | indexOutOfRange
  | intOverflow
  | diverges
deriving Repr, DecidableEq

/-- `a[i]` -/
def loadAt {α : Type} (a : List α) (i : ℕ) : Except ShellFault α :=
  match a[i]? with
  | some x => .ok x
  | none => .error .indexOutOfRange

/-- `a[i] = x` -/
def storeAt {α : Type} (a : List α) (i : ℕ) (x : α) : Except ShellFault (List α) :=
  if i < a.length then .ok (a.set i x) else .error .indexOutOfRange

/-- What an operation on numbers of the type `int` gives. -/
def intResult (n : ℕ) : Except ShellFault ℕ :=
  if n ≤ intMax then .ok n else .error .intOverflow

/-- The loop of `strlen`, over what is left of the array behind `len` characters.
SOURCE: my-shell.c:110-116 -/
def strlenLoop : ℕ → List UInt8 → Except ShellFault ℕ
  | _, [] => .error .indexOutOfRange
  | len, c :: rest =>
    if c = 0 then .ok len
    else do
      let len ← intResult (len + 1)
      strlenLoop len rest

/-- SOURCE: my-shell.c:108-119 -/
def strlen (str : List UInt8) : Except ShellFault ℕ := strlenLoop 0 str

/-! ## Reading a line -/

/-- SOURCE: my-shell.c:15 -/
def strscanInitialMaxStrLen : ℕ := 64

/-- SOURCE: my-shell.c:16 -/
def strscanStrLenGrowFactor : ℕ := 2

/-- The variables of `strscan`, and what is left of standard input.
SOURCE: my-shell.c:135-137 -/
structure Scan where
  stdin : List UInt8
  s : List UInt8
  slen : ℕ
  maxslen : ℕ
deriving Repr, DecidableEq

/-- `realloc(s, n)` for an `n` that is not smaller. -/
def growBytes (indeterminate : ℕ → UInt8) (s : List UInt8) (n : ℕ) : List UInt8 :=
  s ++ (List.range' s.length (n - s.length)).map indeterminate

/-- SOURCE: my-shell.c:135-144 -/
def Scan.initial (indeterminate : ℕ → UInt8) (stdin : List UInt8) : Scan :=
  { stdin := stdin
    s := growBytes indeterminate [] (strscanInitialMaxStrLen + 1)
    slen := 0
    maxslen := strscanInitialMaxStrLen }

/-- The string is made longer if it is full.
SOURCE: my-shell.c:148-158 -/
def Scan.reserve (indeterminate : ℕ → UInt8) (scan : Scan) : Except ShellFault Scan :=
  if scan.slen ≥ scan.maxslen then
    let maxslen := scan.maxslen * strscanStrLenGrowFactor
    if maxslen ≤ intMax then
      .ok { scan with s := growBytes indeterminate scan.s (maxslen + 1), maxslen := maxslen }
    else
      .error .intOverflow
  else
    .ok scan

/-- `read(STDIN_FILENO, s + slen, 1)`, which stores nothing at the end of the stream.
SOURCE: my-shell.c:160-165 -/
def Scan.readByte (scan : Scan) : Except ShellFault Scan :=
  match scan.stdin with
  | [] => .ok scan
  | c :: stdin => do
    let s ← storeAt scan.s scan.slen c
    .ok { scan with s := s, stdin := stdin }

/-- One pass through the loop of `strscan`.
SOURCE: my-shell.c:146-174 -/
def scanPass (indeterminate : ℕ → UInt8) (scan : Scan) : Except ShellFault (Pass Scan) := do
  let scan ← scan.reserve indeterminate
  let scan ← scan.readByte
  let scan := { scan with slen := scan.slen + 1 }
  let c ← loadAt scan.s (scan.slen - 1)
  if c = newline then do
    let s ← storeAt scan.s (scan.slen - 1) 0
    .ok (.done { scan with s := s })
  else
    .ok (.again scan)

/-! ## Splitting a line -/

/-- SOURCE: my-shell.c:17 -/
def strsplitInitialMaxStrArrayLen : ℕ := 1

/-- SOURCE: my-shell.c:18 -/
def strsplitStrArrayLenGrowFactor : ℕ := 2

/-- An array of which an element is `none` before it is stored to. -/
def freshArray (α : Type) (n : ℕ) : List (Option α) := List.replicate n none

/-- A pointer to the array of a string, or a null pointer. -/
inductive StrPointer where
  | null
  | str (bytes : List (Option UInt8))
deriving Repr, DecidableEq

/-- The array of strings with its variables, and the index of the start of the next string
token.
SOURCE: my-shell.c:183-187 -/
structure Split where
  strarray : List (Option StrPointer)
  strarraylen : ℕ
  maxstrarraylen : ℕ
  strarrayi : ℕ
deriving Repr, DecidableEq

/-- SOURCE: my-shell.c:183-201 -/
def Split.initial : Split :=
  { strarray := freshArray StrPointer (strsplitInitialMaxStrArrayLen + 1)
    strarraylen := 0
    maxstrarraylen := strsplitInitialMaxStrArrayLen
    strarrayi := 0 }

/-- The inner loop, from the index `strarrayj` on, which has `room` characters behind it up to
the end of the string: the index of the end of the string token.
SOURCE: my-shell.c:217-227 -/
def endOfToken (origstr : List UInt8) (delimiter : UInt8) : ℕ → ℕ → Except ShellFault ℕ
  | 0, strarrayj => .ok strarrayj
  | room + 1, strarrayj => do
    let c ← loadAt origstr strarrayj
    if c = delimiter then .ok strarrayj else endOfToken origstr delimiter room (strarrayj + 1)

/-- The loop that copies a string token, with the number of characters still to be copied.
SOURCE: my-shell.c:237-240 -/
def copyLoop (origstr : List UInt8) (strarrayi : ℕ) :
    ℕ → ℕ → List (Option UInt8) → Except ShellFault (List (Option UInt8))
  | 0, _, strtoken => .ok strtoken
  | count + 1, strtokeni, strtoken => do
    let c ← loadAt origstr (strarrayi + strtokeni)
    let strtoken ← storeAt strtoken strtokeni (some c)
    copyLoop origstr strarrayi count (strtokeni + 1) strtoken

/-- A new string with the string token.
SOURCE: my-shell.c:229-241 -/
def copyToken (origstr : List UInt8) (strarrayi strtokenlen : ℕ) :
    Except ShellFault (List (Option UInt8)) := do
  let size ← intResult (strtokenlen + 1)
  let strtoken ← copyLoop origstr strarrayi strtokenlen 0 (freshArray UInt8 size)
  storeAt strtoken strtokenlen (some 0)

/-- The array is made longer if it is full.
SOURCE: my-shell.c:247-256 -/
def Split.reserve (split : Split) : Except ShellFault Split :=
  if split.strarraylen ≥ split.maxstrarraylen then do
    let maxstrarraylen ← intResult (split.maxstrarraylen * strsplitStrArrayLenGrowFactor)
    let size ← intResult (maxstrarraylen + 1)
    .ok { split with
          strarray := split.strarray ++ freshArray StrPointer (size - split.strarray.length)
          maxstrarraylen := maxstrarraylen }
  else
    .ok split

/-- One pass through the outer loop of `strsplit`.
SOURCE: my-shell.c:202-261 -/
def splitPass (origstr : List UInt8) (origstrlen : ℕ) (delimiter : UInt8) (split : Split) :
    Except ShellFault (Pass Split) :=
  if split.strarrayi < origstrlen then do
    let c ← loadAt origstr split.strarrayi
    if c = delimiter then
      .ok (.again { split with strarrayi := split.strarrayi + 1 })
    else do
      let strarrayj ←
        endOfToken origstr delimiter (origstrlen - split.strarrayi) split.strarrayi
      let strtoken ← copyToken origstr split.strarrayi (strarrayj - split.strarrayi)
      let split ← { split with strarrayi := strarrayj }.reserve
      let strarray ← storeAt split.strarray split.strarraylen (some (.str strtoken))
      .ok (.again { split with strarray := strarray, strarraylen := split.strarraylen + 1 })
  else
    .ok (.done split)

/-- Every pass that goes round again moves on in the string, so that the loop `diverges` when
it makes more passes than the string is long.
SOURCE: my-shell.c:179-267 -/
def strsplit (origstr : List UInt8) (delimiter : UInt8) :
    Except ShellFault (List (Option StrPointer)) := do
  let origstrlen ← strlen origstr
  match ← loop (splitPass origstr origstrlen delimiter) (origstrlen + 1) Split.initial with
  | .again _ => .error .diverges
  | .done split => storeAt split.strarray split.strarraylen (some .null)

end Comp30023.Model
