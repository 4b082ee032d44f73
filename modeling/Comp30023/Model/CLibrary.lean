import Mathlib.Algebra.Ring.Int.Defs
import Mathlib.Algebra.Ring.Nat
import Mathlib.Data.Int.Order.Basic
import Comp30023.Library.Lines

/-!
# The C library

The functions of the C library that the programs call on texts, as they are documented. A
text is a list of bytes; where a C array is meant, its text ends before the first zero.
-/

set_option autoImplicit false

namespace Comp30023.Model

open Comp30023.Library

/-- The text a C array holds. -/
def cString (bytes : List UInt8) : List UInt8 := bytes.takeWhile (· ≠ 0)

/-- `strncpy(dest, src, n)`: a copy that stops at the terminator of `src`, padded with
zeros to `n` bytes. -/
def strncpy (src : List UInt8) (n : ℕ) : List UInt8 :=
  let text := (cString src).take n
  text ++ List.replicate (n - text.length) 0

/-- `strncmp(s, t, n)`: the difference of the first bytes that differ, among the first `n` and
up to the terminator. -/
def strncmp : ℕ → List UInt8 → List UInt8 → ℤ
  | 0, _, _ => 0
  | n + 1, s, t =>
    if s.headD 0 ≠ t.headD 0 then (s.headD 0).toNat - (t.headD 0).toNat
    else if s.headD 0 = 0 then 0
    else strncmp n s.tail t.tail

/-- `strcspn(s, reject)`: how many bytes of the text come before the first of `reject`. -/
def strcspn (s reject : List UInt8) : ℕ :=
  ((cString s).takeWhile (· ∉ reject)).length

/-- The character that ends a line. -/
def newline : UInt8 := 10

/-- `fgets(_, size, stream)`: the text it stores, without the terminator, and what is left of
the stream; `none` at the end of the stream. -/
def fgets (size : ℕ) (stream : List UInt8) : Option (List UInt8 × List UInt8) :=
  if stream = [] then none else some (takeLine newline (size - 1) stream)

/-- `strtok(_, delim)`: the next token of the text, and the text the next call goes on with;
`none` when only delimiters are left. -/
def strtok (delim text : List UInt8) : Option (List UInt8 × List UInt8) :=
  takeWord (delim.contains ·) text

/-- `isspace` -/
def isSpace (c : UInt8) : Bool := c = 32 ∨ 9 ≤ c ∧ c ≤ 13

/-- `isdigit` -/
def isDigit (c : UInt8) : Bool := 48 ≤ c ∧ c ≤ 57

/-- The number that a row of digits is. -/
def digitsValue (digits : List UInt8) : ℕ :=
  digits.foldl (fun value c => 10 * value + (c.toNat - 48)) 0

/-- The largest number of the type `int`. -/
def intMax : ℕ := 2 ^ 31 - 1

/-- `strtol(text, NULL, 10)`: blanks are passed over, then there may be a sign, then come the
digits up to the first character that is none; a number outside of the type `long` becomes
the nearest one in it. -/
def strtol (text : List UInt8) : ℤ :=
  let text := text.dropWhile isSpace
  let isNegative := text.head? = some 45
  let text := if text.head? = some 43 ∨ text.head? = some 45 then text.tail else text
  let value : ℤ := digitsValue (text.takeWhile isDigit)
  max (-2 ^ 63) (min (2 ^ 63 - 1) (if isNegative then -value else value))

/-- `atoi(text)`: `strtol`, cut down to the type `int`. -/
def atoi (text : List UInt8) : ℤ := (strtol text).bmod (2 ^ 32)

end Comp30023.Model
