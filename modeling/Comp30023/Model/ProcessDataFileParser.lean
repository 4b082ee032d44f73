import Comp30023.Library.Loop
import Comp30023.Model.CLibrary
import Comp30023.Model.ProcessScheduler

/-!
# The parser of process data files

`process-data-file-parser.c`: a file is read line by line, a line is cut into tokens, and the
scheduled processes are put into an array that grows when it is full and ends in a null
pointer.

What C leaves undefined is a fault here: `atoi` of a null pointer, a store outside of the array
as it is allocated, a number that does not fit into an `int`. `malloc` and `realloc` have
memory to give.
-/

set_option autoImplicit false

namespace Comp30023.Model

open Comp30023.Library

/-- SOURCE: process-data-file-parser.h:15 -/
def initialScheduledProcsMaxLen : ℕ := 4

/-- SOURCE: process-data-file-parser.h:16 -/
def scheduledProcsMaxLenGrowFactor : ℕ := 2

/-- SOURCE: process-data-file-parser.h:17 -/
def lineMaxLen : ℕ := 100

/-- A blank.
SOURCE: process-data-file-parser.h:18 -/
def tokenDelimiter : List UInt8 := [32]

/-- SOURCE: process-data-file-parser.h:19 -/
def tokensLen : ℕ := 4

/-- What goes wrong while a file is parsed. -/
inductive ParseFault where
  | atoiOfNull
  | intOverflow
  | storeOutOfBounds
  | diverges
deriving Repr, DecidableEq

/-- An element of the array of pointers to scheduled processes. Memory fresh from the
allocator is `indeterminate`. -/
inductive Slot where
  | indeterminate
  | null
  | proc (proc : ScheduledProcess)
deriving Repr, DecidableEq

/-- The array with its variables.
SOURCE: process-data-file-parser.c:42-44 -/
structure ScheduledProcs where
  scheduledProcs : List Slot
  scheduledProcsLen : ℕ
  scheduledProcsMaxLen : ℕ
deriving Repr, DecidableEq

/-- The result of arithmetic in the type `int`, for numbers that are not negative. -/
def cInt (n : ℕ) : Except ParseFault ℕ := if n ≤ intMax then .ok n else .error .intOverflow

/-- `realloc`, counted in slots: what was there stays as far as it fits. -/
def reallocSlots (slots : List Slot) (n : ℕ) : List Slot :=
  slots.take n ++ List.replicate (n - slots.length) .indeterminate

/-- An assignment to an element of the array. -/
def storeSlot (slots : List Slot) (i : ℕ) (slot : Slot) : Except ParseFault (List Slot) :=
  if i < slots.length then .ok (slots.set i slot) else .error .storeOutOfBounds

/-- The array before the first line is read.
SOURCE: process-data-file-parser.c:42-59 -/
def ScheduledProcs.initial : ScheduledProcs :=
  { scheduledProcs := reallocSlots [] (initialScheduledProcsMaxLen + 1)
    scheduledProcsLen := 0
    scheduledProcsMaxLen := initialScheduledProcsMaxLen }

/-- The array `tokens` up to `tokens_count`, as it is filled by `strtok`, when there is room
for `room` more tokens. It may end in a null pointer, which counts as well.
SOURCE: process-data-file-parser.c:65-72 -/
def getTokens : ℕ → List UInt8 → List (Option (List UInt8))
  | 0, _ => []
  | room + 1, text =>
    match strtok tokenDelimiter text with
    | none => [none]
    | some (token, text) => some token :: getTokens room text

/-- `atoi` of an element of `tokens`. -/
def atoiToken : Option (List UInt8) → Except ParseFault ℤ
  | none => .error .atoiOfNull
  | some token => .ok (atoi token)

/-- SOURCE: process-data-file-parser.c:18-38 -/
def newScheduledProcess (startTime processId memorySize jobTime : ℤ) : ScheduledProcess :=
  { startTime := startTime, processId := processId, memorySize := memorySize,
    jobTime := jobTime }

/-- The array is made larger.
SOURCE: process-data-file-parser.c:95-101 -/
def ScheduledProcs.grow (procs : ScheduledProcs) : Except ParseFault ScheduledProcs := do
  let maxLen ← cInt (procs.scheduledProcsMaxLen * scheduledProcsMaxLenGrowFactor)
  let slotsLen ← cInt (maxLen + 1)
  .ok { procs with
    scheduledProcs := reallocSlots procs.scheduledProcs slotsLen
    scheduledProcsMaxLen := maxLen }

/-- The array is made larger if it is full.
SOURCE: process-data-file-parser.c:93-102 -/
def ScheduledProcs.reserve (procs : ScheduledProcs) : Except ParseFault ScheduledProcs :=
  if procs.scheduledProcsLen = procs.scheduledProcsMaxLen then procs.grow else .ok procs

/-- A scheduled process is added to the array.
SOURCE: process-data-file-parser.c:90-104 -/
def ScheduledProcs.add (procs : ScheduledProcs) (proc : ScheduledProcess) :
    Except ParseFault ScheduledProcs := do
  let procs ← procs.reserve
  let slots ← storeSlot procs.scheduledProcs procs.scheduledProcsLen (.proc proc)
  let len ← cInt (procs.scheduledProcsLen + 1)
  .ok { procs with scheduledProcs := slots, scheduledProcsLen := len }

/-- What is done with a line that was read.
SOURCE: process-data-file-parser.c:64-104 -/
def parseLine (procs : ScheduledProcs) (line : List UInt8) :
    Except ParseFault ScheduledProcs := do
  let tokens := getTokens tokensLen (cString line)
  if tokens.length ≠ tokensLen then .ok procs
  else
    let startTime ← atoiToken (tokens.getD 0 none)
    let processId ← atoiToken (tokens.getD 1 none)
    let memorySize ← atoiToken (tokens.getD 2 none)
    let jobTime ← atoiToken (tokens.getD 3 none)
    procs.add (newScheduledProcess startTime processId memorySize jobTime)

/-- One pass through the loop, with what is left of the file.
SOURCE: process-data-file-parser.c:62-105 -/
def parsePass (s : List UInt8 × ScheduledProcs) :
    Except ParseFault (Pass (List UInt8 × ScheduledProcs)) :=
  match fgets lineMaxLen s.1 with
  | none => .ok (.done s)
  | some (line, fp) => do
    let procs ← parseLine s.2 line
    .ok (.again (fp, procs))

/-- Every pass takes something from the file, so that the loop `diverges` when it makes more
passes than the file is long.
SOURCE: process-data-file-parser.c:40-111 -/
def parseProcessDataFile (fp : List UInt8) : Except ParseFault (List Slot) := do
  match ← loop parsePass (fp.length + 1) (fp, ScheduledProcs.initial) with
  | .again _ => .error .diverges
  | .done (_, procs) => storeSlot procs.scheduledProcs procs.scheduledProcsLen .null

end Comp30023.Model
