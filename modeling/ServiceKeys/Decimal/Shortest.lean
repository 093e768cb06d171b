import ServiceKeys.Decimal.Binary

/-!
# Shortest decimals

A double is written with the fewest decimal digits that read back as the same double; among those
of that length the one nearest to it is taken.  The search is exact: on the grid of decimals with
one, two, … seventeen digits, only the two neighbours of the value can lie in the interval of reals
that round to it, and the first grid with a neighbour inside wins.
-/

namespace ServiceKeys.Decimal

/-- A positive fraction. -/
structure Ratio where
  num : Nat
  den : Nat

/-- `n · 2 ^ e` as a fraction. -/
def Ratio.scaled (n : Nat) (e : Int) : Ratio :=
  if 0 ≤ e then ⟨n * Nat.pow 2 e.toNat, 1⟩ else ⟨n, Nat.pow 2 (-e).toNat⟩

/-- `d · 10 ^ k` as a fraction. -/
def Ratio.decimal (d : Nat) (k : Int) : Ratio :=
  if 0 ≤ k then ⟨d * Nat.pow 10 k.toNat, 1⟩ else ⟨d, Nat.pow 10 (-k).toNat⟩

/-- Comparison of fractions. -/
def Ratio.lt (a b : Ratio) : Bool := a.num * b.den < b.num * a.den

/-- The reals that round to a double, between two fractions, ends included or not. -/
structure Interval where
  low : Ratio
  high : Ratio
  closed : Bool

/-- Whether a fraction lies in an interval. -/
def Interval.holds (i : Interval) (r : Ratio) : Bool :=
  if i.closed then !r.lt i.low && !i.high.lt r else i.low.lt r && r.lt i.high

/-- The reals that round to `m · 2 ^ e`.  Below a power of two the neighbours are twice as
dense. -/
def roundingInterval (m : Nat) (e : Int) : Interval :=
  let narrow := m == Nat.pow 2 52 && e != -1074
  { low := .scaled (4 * m - if narrow then 1 else 2) (e - 2)
    high := .scaled (4 * m + 2) (e - 2)
    closed := m % 2 == 0 }

/-- The greatest `k` with `10 ^ k ≤ r`. -/
def Ratio.magnitude (r : Ratio) : Int :=
  if r.den ≤ r.num then ((Nat.toDigits 10 (r.num / r.den)).length : Int) - 1
  else
    let j := (Nat.toDigits 10 (r.den / r.num)).length
    if r.den ≤ r.num * Nat.pow 10 (j - 1) then -((j : Int) - 1) else -(j : Int)

/-- A decimal `digits · 10 ^ exponent`. -/
structure Scaled where
  digits : Nat
  exponent : Int
  deriving DecidableEq, Repr

/-- The best decimal on the grid of step `10 ^ k`, if one of the value's neighbours reads back. -/
def onGrid? (value : Ratio) (i : Interval) (k : Int) : Option Scaled :=
  let unit := Ratio.decimal 1 k
  let below := value.num * unit.den / (value.den * unit.num)
  let above := below + 1
  let fits (d : Nat) := d != 0 && i.holds (.decimal d k)
  -- the value lies nearer to `below` when its double is under the sum of the neighbours
  let middle := Ratio.decimal (below + above) k
  let twice : Ratio := ⟨2 * value.num, value.den⟩
  match fits below, fits above with
  | true, false => some ⟨below, k⟩
  | false, true => some ⟨above, k⟩
  | false, false => none
  | true, true =>
    if twice.lt middle then some ⟨below, k⟩
    else if middle.lt twice then some ⟨above, k⟩
    else some ⟨if below % 2 == 0 then below else above, k⟩

/-- The shortest decimal that reads back as `m · 2 ^ e`, for `m` above zero. -/
def shortest (m : Nat) (e : Int) : Scaled :=
  let value := Ratio.scaled m e
  let i := roundingInterval m e
  let top := value.magnitude
  ((List.range 17).findSome? fun (n : Nat) => onGrid? value i (top - n)).getD ⟨m, e⟩

/-- Digits without the zeros at their end, which go into the exponent. -/
def Scaled.trimmed : Nat → Scaled → Scaled
  | 0, d => d
  | n + 1, d =>
    if d.digits % 10 == 0 && d.digits != 0 then trimmed n ⟨d.digits / 10, d.exponent + 1⟩ else d

/-- How doubles are written: positionally when the leading digit stands from `10 ^ lowest` up to
and not including `10 ^ limit`, with a point and at least one digit behind it; otherwise with an
exponent of a sign and at least two digits. -/
structure FloatStyle where
  lowest : Int
  limit : Int

/-- The digits of a decimal in positional notation. -/
def positional (ds : List Char) (exponent : Int) : List Char :=
  if 0 ≤ exponent then ds ++ List.replicate exponent.toNat '0' ++ ['.', '0']
  else
    let behind := (-exponent).toNat
    if behind < ds.length then
      ds.take (ds.length - behind) ++ ['.'] ++ ds.drop (ds.length - behind)
    else ['0', '.'] ++ List.replicate (behind - ds.length) '0' ++ ds

/-- The digits of a decimal with an exponent. -/
def scientific (ds : List Char) (leading : Int) : List Char :=
  let mantissa := match ds with
    | [] => []
    | [d] => [d]
    | d :: rest => d :: '.' :: rest
  let size := Nat.toDigits 10 leading.natAbs
  mantissa ++ ['e', if leading < 0 then '-' else '+'] ++
    (if size.length < 2 then '0' :: size else size)

/-- A double in a given style. -/
def FloatStyle.write (style : FloatStyle) (x : Float) : String :=
  match parts x with
  | .nan => "nan"
  | .infinite negative => if negative then "-inf" else "inf"
  | .finite negative m e =>
    let sign := if negative then "-" else ""
    if m = 0 then sign ++ "0.0"
    else
      let d := (shortest m e).trimmed 17
      let ds := Nat.toDigits 10 d.digits
      let leading := d.exponent + ds.length - 1
      let body :=
        if style.lowest ≤ leading && leading < style.limit then positional ds d.exponent
        else scientific ds leading
      sign ++ String.ofList body

end ServiceKeys.Decimal
