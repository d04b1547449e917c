import Sigil.Number.Shortest

/-!
# How doubles are written

A `Style` fixes what the shortest digits leave open: where positional notation ends, whether a whole
number keeps its point, and which way a tie goes.
-/

namespace Sigil.Number

structure Style where
  tie : Tie
  /-- Powers of ten of the first digit that are written positionally. -/
  positional : Int → Bool
  /-- A whole number ends in `.0`. -/
  pointed : Bool

namespace Style

/-- Writes `digits * 10 ^ exponent` without a power of ten. -/
def positionalText (s : Style) (digits : List Char) (exponent : Int) : List Char :=
  if 0 ≤ exponent then
    digits ++ List.replicate exponent.toNat '0' ++ if s.pointed then ['.', '0'] else []
  else
    let places := (-exponent).toNat
    if places < digits.length then
      digits.take (digits.length - places) ++ '.' :: digits.drop (digits.length - places)
    else '0' :: '.' :: List.replicate (places - digits.length) '0' ++ digits

/-- Writes a first digit, the others after a point, and the power of ten with its sign. -/
def exponentText (digits : List Char) (power : Int) : List Char :=
  let body := match digits with
    | first :: second :: rest => first :: '.' :: second :: rest
    | short => short
  let sign := if power < 0 then '-' else '+'
  body ++ 'e' :: sign :: Nat.toDigits 10 power.natAbs

def write (s : Style) (x : Float) : List Char :=
  match Parts.ofFloat x with
  | .nan => ['N', 'a', 'N']
  | .infinite negative => if negative then ['-', 'i', 'n', 'f'] else ['i', 'n', 'f']
  | .finite negative mantissa exponent =>
    let (number, exponent) := shortest s.tie mantissa exponent
    let digits := Nat.toDigits 10 number
    let power := exponent + digits.length - 1
    let text :=
      if s.positional power then s.positionalText digits exponent else exponentText digits power
    if negative then '-' :: text else text

end Style

end Sigil.Number
