import Sigil.Number.Power

/-!
# Doubles as exact numbers

A finite double is `mantissa * 2 ^ exponent` with a sign. `Parts.ofFloat` reads these off the bit
pattern, `ofRatio` goes the other way and rounds a quotient of naturals to the nearest double, and
everything in between is arithmetic on `Nat` and `Int`.
-/

namespace Sigil.Number

/-- What a double stands for. -/
inductive Parts where
  | nan
  | infinite (negative : Bool)
  | finite (negative : Bool) (mantissa : Nat) (exponent : Int)
deriving DecidableEq, Repr

/-- Reads sign, exponent field and fraction off a bit pattern. -/
def Parts.ofBits (bits : Nat) : Parts :=
  let negative : Bool := pow2 63 ≤ bits
  let field : Nat := bits / pow2 52 % pow2 11
  let fraction : Nat := bits % pow2 52
  if field = pow2 11 - 1 then
    if fraction = 0 then .infinite negative else .nan
  else if field = 0 then .finite negative fraction (-1074)
  else .finite negative (pow2 52 + fraction) (field - 1075)

def Parts.ofFloat (x : Float) : Parts := ofBits x.toBits.toNat

/-- Quotient rounded to the nearest natural, a half going to the even neighbour. -/
def roundHalfEven (num den : Nat) : Nat :=
  let q := num / den
  let r := num % den
  if 2 * r < den then q
  else if den < 2 * r then q + 1
  else if q % 2 = 0 then q else q + 1

/-- Numerator and denominator of `num / den / 2 ^ q`. -/
def scaleDown (num den : Nat) (q : Int) : Nat × Nat :=
  (num * pow2 (-q).toNat, den * pow2 q.toNat)

/-- Bit pattern, without the sign, of the double nearest to `num / den`, ties to even. Too large a
quotient gives the pattern of infinity. The exponent `q` is the one at which the mantissa has 53
bits, or the least exponent if there is none; a mantissa that rounds up to `2 ^ 53` carries into the
exponent field. -/
def ratioBits (num den : Nat) : Nat :=
  if num = 0 then 0
  else
    let estimate : Int := max ((num.log2 : Int) - den.log2 - 53) (-1074)
    let (a, b) := scaleDown num den estimate
    let q := if pow2 53 ≤ a / b then estimate + 1 else estimate
    let (a, b) := scaleDown num den q
    min ((q + 1074).toNat * pow2 52 + roundHalfEven a b) (2047 * pow2 52)

def ofRatio (negative : Bool) (num den : Nat) : Float :=
  Float.ofBits (UInt64.ofNat ((if negative then pow2 63 else 0) + ratioBits num den))

def ofInt (n : Int) : Float :=
  ofRatio (n < 0) n.natAbs 1

def infinity (negative : Bool) : Float :=
  Float.ofBits (UInt64.ofNat ((if negative then pow2 63 else 0) + 2047 * pow2 52))

namespace Parts

/-- The integer part, toward zero. -/
def truncate : Parts → Int
  | .finite negative m e =>
    let size := m * pow2 e.toNat / pow2 (-e).toNat
    if negative then -(size : Int) else size
  | _ => 0

/-- The double is an integer. -/
def isInteger : Parts → Bool
  | .finite _ m e => m % pow2 (-e).toNat = 0
  | _ => false

def isFinite : Parts → Bool
  | .finite .. => true
  | _ => false

end Parts

/-- The nearest end of the 64-bit range for an integer outside it. -/
def clamp64 (n : Int) : Int64 :=
  if n < Int64.minValue.toInt then Int64.minValue
  else if Int64.maxValue.toInt < n then Int64.maxValue
  else Int64.ofInt n

/-- The integer part as a 64-bit integer; out of range it is the nearest end. -/
def truncate64 (x : Float) : Int64 :=
  clamp64 (Parts.ofFloat x).truncate

end Sigil.Number
