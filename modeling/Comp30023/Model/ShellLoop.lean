import Comp30023.Model.MyShell
import Mathlib.Data.Int.Notation

/-!
# The loop of the shell

`main` of `my-shell.c`, with the functions that it calls beside `strscan` and `strsplit`. A child
process is what `execve` gets: the strings of the argument array. The shell is started without a
time-out, so that no signal comes; it waits for each child, which takes nothing from standard
input, and `write` and `execve` do what they are asked for. Whether `fork` does, and what the memory
holds that `strscan` gets, is up to the `ShellWorld`.

A block is what one call of `malloc` returned, also after `realloc`. The blocks are counted that
have not been given back.
-/

set_option autoImplicit false

namespace Comp30023.Model

open Comp30023.Library

/-- `char` is signed. An element that nothing was stored to counts as one outside of the array.
SOURCE: my-shell.c:98-106 -/
def strcmp : List (Option UInt8) → List UInt8 → Except ShellFault ℤ
  | some c :: s1, d :: s2 =>
    if c ≠ 0 ∧ c = d then strcmp s1 s2 else .ok (c.toInt8.toInt - d.toInt8.toInt)
  | _, _ => .error .indexOutOfRange

/-- The array with the line, and what is left of standard input. At the latest after `2 ^ 30`
passes `maxslen` cannot be doubled any more.
SOURCE: my-shell.c:133-177 -/
def strscan (indeterminate : ℕ → UInt8) (stdin : List UInt8) :
    Except ShellFault (List UInt8 × List UInt8) :=
  match loop (scanPass indeterminate) (2 ^ 30 + 1) (Scan.initial indeterminate stdin) with
  | .error e => .error e
  | .ok (.again _) => .error .diverges
  | .ok (.done scan) => .ok (scan.s, scan.stdin)

/-- How many blocks are given back.
SOURCE: my-shell.c:269-284 -/
def freestrarray : List (Option StrPointer) → Except ShellFault ℕ
  | some (.str _) :: rest => do
    let freed ← freestrarray rest
    .ok (freed + 1)
  | some .null :: _ => .ok 1
  | _ => .error .indexOutOfRange

/-- How many blocks an array of strings and its strings are. -/
def blocksOf (strarray : List (Option StrPointer)) : ℕ :=
  (strarray.countP fun
    | some (.str _) => true
    | _ => false) + 1

/-- The string that an array has up to a null byte. -/
def stringOf : List (Option UInt8) → Except ShellFault (List UInt8)
  | some c :: rest =>
    if c = 0 then .ok []
    else do
      let s ← stringOf rest
      .ok (c :: s)
  | _ => .error .indexOutOfRange

/-- What `execve` takes from an argument array. -/
def argvOf : List (Option StrPointer) → Except ShellFault (List (List UInt8))
  | some (.str bytes) :: rest => do
    let s ← stringOf bytes
    let argv ← argvOf rest
    .ok (s :: argv)
  | some .null :: _ => .ok []
  | _ => .error .indexOutOfRange

/-- `" "` -/
def blank : UInt8 := 32

/-- SOURCE: my-shell.c:14 -/
def exitCommand : List UInt8 := [101, 120, 105, 116]

/-- What fresh memory holds in each call of `strscan`, and which calls of `fork` are successful. -/
structure ShellWorld where
  memory : ℕ → ℕ → UInt8
  forks : ℕ → Bool

/-- The shell at the top of its loop: how often it has asked for a command, the argument
arrays of the children, and what `main` has returned.
SOURCE: my-shell.c:288-290 -/
structure Shell where
  stdin : List UInt8
  prompts : ℕ
  children : List (List (List UInt8))
  allocated : ℤ
  returned : Option ℤ
deriving Repr, DecidableEq

/-- SOURCE: my-shell.c:286-301 -/
def Shell.initial (stdin : List UInt8) : Shell :=
  { stdin := stdin, prompts := 0, children := [], allocated := 0, returned := none }

/-- A command that is not `exit`: it is run by a child, for which the shell waits.
SOURCE: my-shell.c:325-359 -/
def runCommand (world : ShellWorld) (cmdargv : List (Option StrPointer)) (shell : Shell) :
    Except ShellFault (Pass Shell) :=
  if world.forks shell.children.length then do
    let argv ← argvOf cmdargv
    let freed ← freestrarray cmdargv
    .ok (.again { shell with
      children := shell.children ++ [argv]
      allocated := shell.allocated - (1 + freed) })
  else
    .ok (.done { shell with returned := some 1 })

/-- One pass through the loop of `main`.
SOURCE: my-shell.c:303-360 -/
def shellPass (world : ShellWorld) (shell : Shell) : Except ShellFault (Pass Shell) := do
  let (cmd, stdin) ← strscan (world.memory shell.prompts) shell.stdin
  let cmdargv ← strsplit cmd blank
  let shell := { shell with
    stdin := stdin
    prompts := shell.prompts + 1
    allocated := shell.allocated + (1 + blocksOf cmdargv) }
  match ← loadAt cmdargv 0 with
  | none => .error .indexOutOfRange
  | some .null => .ok (.again shell)
  | some (.str cmdfilename) => do
    let difference ← strcmp cmdfilename (exitCommand ++ [0])
    if difference = 0 then .ok (.done { shell with returned := some 0 })
    else runCommand world cmdargv shell

end Comp30023.Model
