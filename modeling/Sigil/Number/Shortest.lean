import Sigil.Number.Binary64

/-!
# Shortest decimals

The fewest digits that read back as a given double, and of those the nearest to it. All tests are
exact: with the double's value as a quotient of naturals, the decimals with `n` digits form a grid,
and only the value's two neighbours on the grid have to be looked at.
-/

namespace Sigil.Number

/-- Which of two equally near decimals is taken. -/
inductive Tie where
  | even
  | up
deriving DecidableEq

/-- The reals that round to one double, all over a common denominator: its `value`, the ends `low`
and `high`, and whether the ends themselves round to it. -/
structure Interval where
  low : Nat
  value : Nat
  high : Nat
  den : Nat
  closed : Bool

/-- The interval of `mantissa * 2 ^ exponent`. Below a power of two the neighbour is half as far
away. -/
def Interval.of (mantissa : Nat) (exponent : Int) : Interval :=
  let below := if mantissa = pow2 52 ∧ exponent ≠ -1074 then 1 else 2
  let scale := pow2 (exponent - 2).toNat
  { low := (4 * mantissa - below) * scale
    value := 4 * mantissa * scale
    high := (4 * mantissa + 2) * scale
    den := pow2 (2 - exponent).toNat
    closed := mantissa % 2 = 0 }

/-- `digits * 10 ^ exponent` reads back. -/
def Interval.admits (i : Interval) (digits : Nat) (exponent : Int) : Bool :=
  let x := digits * pow10 exponent.toNat * i.den
  let unit := pow10 (-exponent).toNat
  let low := i.low * unit
  let high := i.high * unit
  if i.closed then low ≤ x && x ≤ high else low < x && x < high

/-- The better of the value's neighbours on the grid of multiples of `10 ^ exponent`, if one of them
reads back. -/
def Interval.onGrid? (i : Interval) (tie : Tie) (exponent : Int) : Option Nat :=
  let num := i.value * pow10 (-exponent).toNat
  let den := i.den * pow10 exponent.toNat
  let floor := num / den
  let rest := 2 * (num % den)
  match i.admits floor exponent, i.admits (floor + 1) exponent with
  | true, false => some floor
  | false, true => some (floor + 1)
  | false, false => none
  | true, true =>
    if rest < den then some floor
    else if den < rest then some (floor + 1)
    else match tie with
      | .even => if floor % 2 = 0 then some floor else some (floor + 1)
      | .up => some (floor + 1)

/-- Largest `k` from `k` on, at most `fuel` away, with `10 ^ k ≤ value`. -/
def Interval.magnitude (i : Interval) : Nat → Int → Int
  | 0, k => k
  | fuel + 1, k =>
    if i.den * pow10 (k + 1).toNat ≤ i.value * pow10 (-(k + 1)).toNat then
      i.magnitude fuel (k + 1)
    else k

/-- Moves the zeros at the end of the digits into the exponent. -/
def dropZeros : Nat → Nat → Int → Nat × Int
  | 0, digits, exponent => (digits, exponent)
  | fuel + 1, digits, exponent =>
    if digits % 10 = 0 then dropZeros fuel (digits / 10) (exponent + 1) else (digits, exponent)

/-- Tries the coarsest grid first, then grids ten times finer each. -/
def Interval.search (i : Interval) (tie : Tie) : Nat → Int → Nat × Int
  | 0, exponent => (i.value / i.den, exponent)
  | fuel + 1, exponent =>
    match i.onGrid? tie exponent with
    | some digits => dropZeros 20 digits exponent
    | none => i.search tie fuel (exponent - 1)

/-- Digits and power of ten of the shortest decimal for `mantissa * 2 ^ exponent`. Seventeen digits
always suffice. -/
def shortest (tie : Tie) (mantissa : Nat) (exponent : Int) : Nat × Int :=
  if mantissa = 0 then (0, 0)
  else
    let i := Interval.of mantissa exponent
    let start := (mantissa.log2 + exponent) * 30103 / 100000 - 1
    i.search tie 17 (i.magnitude 3 start)

end Sigil.Number
