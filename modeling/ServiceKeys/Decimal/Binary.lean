/-!
# Binary floating-point numbers

A double taken apart: a sign and a magnitude `mantissa · 2 ^ exponent`, or one of the values that
are not numbers of that form.  Everything that the library says about a double goes through this
exact form.
-/

namespace ServiceKeys.Decimal

/-- A double, taken apart. -/
inductive Parts where
  | nan
  | infinite (negative : Bool)
  | finite (negative : Bool) (mantissa : Nat) (exponent : Int)
  deriving DecidableEq, Repr

/-- The parts of a 64-bit pattern. -/
def partsOfBits (bits : Nat) : Parts :=
  let negative := bits / Nat.pow 2 63 == 1
  let biased : Nat := bits / Nat.pow 2 52 % Nat.pow 2 11
  let fraction : Nat := bits % Nat.pow 2 52
  if biased = 2047 then if fraction = 0 then .infinite negative else .nan
  else if biased = 0 then .finite negative fraction (-1074)
  else .finite negative (Nat.pow 2 52 + fraction) ((biased : Int) - 1075)

/-- The parts of a double. -/
def parts (x : Float) : Parts := partsOfBits x.toBits.toNat

/-- The integer that a finite double stands for, its fraction dropped. -/
def Parts.truncate : Parts → Option Int
  | .finite negative m e =>
    let n := if 0 ≤ e then m * Nat.pow 2 e.toNat else m / Nat.pow 2 (-e).toNat
    some (if negative then -(n : Int) else n)
  | _ => none

/-- Whether a double is exactly a given integer. -/
def Parts.isInteger (p : Parts) (i : Int) : Bool :=
  match p with
  | .finite negative m e =>
    let signed : Int := if negative then -(m : Int) else m
    if 0 ≤ e then signed * Nat.pow 2 e.toNat == i else signed == i * Nat.pow 2 (-e).toNat
  | _ => false

end ServiceKeys.Decimal
