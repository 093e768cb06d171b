import ServiceKeys.Text.Basic
import ServiceKeys.Text.Digit

/-!
# Written integers

A decimal integer may have blanks around it, a sign, digits of any script, and single underscores
between digits.
-/

namespace ServiceKeys.Text

/-- Reads digits with single underscores between them, given the value so far.  `afterDigit` tells
whether the last character read was a digit, which is the only place where a number may end or an
underscore may stand. -/
def digitsGo : (afterDigit : Bool) → Nat → List Char → Option Nat
  | afterDigit, n, [] => if afterDigit then some n else none
  | afterDigit, n, c :: cs =>
    match digitValue? c with
    | some d => digitsGo true (10 * n + d) cs
    | none => if c == '_' && afterDigit then digitsGo false n cs else none

/-- Reads a decimal integer. -/
def integer? (cs : List Char) : Option Int :=
  match trim cs with
  | '-' :: rest => (digitsGo false 0 rest).map fun n => -(n : Int)
  | '+' :: rest => (digitsGo false 0 rest).map fun n => (n : Int)
  | rest => (digitsGo false 0 rest).map fun n => (n : Int)

/-- A number written in plain ASCII digits. -/
def natDigits (n : Nat) : List Char := Nat.toDigits 10 n

/-- An integer written in plain ASCII digits. -/
def integerDigits (i : Int) : List Char :=
  if i < 0 then '-' :: natDigits i.natAbs else natDigits i.natAbs

end ServiceKeys.Text
