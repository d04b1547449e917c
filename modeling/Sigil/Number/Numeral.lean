import Sigil.Number.Binary64

/-!
# Numerals in text

Integers are an optional sign and decimal digits. Decimals are an optional sign, digits with at most
one point among them, and an optional power of ten; they are read to the nearest double.
-/

namespace Sigil.Number

/-- Value of a run of digits that follows digits worth `acc`. -/
def digitsValue (acc : Nat) (cs : List Char) : Nat :=
  cs.foldl (fun a c => 10 * a + (c.toNat - '0'.toNat)) acc

/-- One or more decimal digits. -/
def readNat? (cs : List Char) : Option Nat :=
  if cs.isEmpty || cs.any (!·.isDigit) then none else some (digitsValue 0 cs)

/-- Splits a leading sign off; `true` stands for minus. -/
def splitSign : List Char → Bool × List Char
  | '-' :: cs => (true, cs)
  | '+' :: cs => (false, cs)
  | cs => (false, cs)

def readInt? (cs : List Char) : Option Int :=
  let (negative, rest) := splitSign cs
  (readNat? rest).map fun n => if negative then -(n : Int) else n

/-- An integer in the 64-bit range. -/
def readInt64? (cs : List Char) : Option Int64 :=
  (readInt? cs).bind fun n =>
    if Int64.minValue.toInt ≤ n ∧ n ≤ Int64.maxValue.toInt then some (Int64.ofInt n) else none

/-- A natural below `2 ^ 64`, with an optional plus sign and no minus sign. -/
def readWord? (cs : List Char) : Option Nat :=
  let digits := match cs with
    | '+' :: rest => rest
    | _ => cs
  (readNat? digits).bind fun n => if n < pow2 64 then some n else none

/-- The decimal `± digits * 10 ^ exponent`. -/
structure Decimal where
  negative : Bool
  digits : Nat
  exponent : Int
deriving DecidableEq, Repr

namespace Decimal

/-- The power of ten at the end of a numeral; nothing there stands for zero. -/
def readExponent? : List Char → Option Int
  | [] => some 0
  | c :: cs => if c = 'e' ∨ c = 'E' then readInt? cs else none

/-- Reads a whole text as a decimal. At least one digit stands beside the point. -/
def read? (cs : List Char) : Option Decimal :=
  let (negative, cs) := splitSign cs
  let (whole, cs) := cs.span Char.isDigit
  let (fraction, cs) := match cs with
    | '.' :: rest => rest.span Char.isDigit
    | _ => ([], cs)
  if whole.isEmpty && fraction.isEmpty then none
  else (readExponent? cs).map fun e =>
    ⟨negative, digitsValue 0 (whole ++ fraction), e - fraction.length⟩

/-- The nearest double, ties to even. Far outside the range of doubles the answer is infinity or
zero without forming the power of ten. -/
def toFloat (d : Decimal) : Float :=
  if d.digits = 0 then ofRatio d.negative 0 1
  else if 400 < d.exponent then infinity d.negative
  else if d.exponent < -(401 + d.digits.log2 : Int) then ofRatio d.negative 0 1
  else ofRatio d.negative (d.digits * pow10 d.exponent.toNat) (pow10 (-d.exponent).toNat)

end Decimal

/-- The nearest double of a decimal text, provided that it is finite. -/
def readFinite? (cs : List Char) : Option Float :=
  (Decimal.read? cs).bind fun d =>
    if (Parts.ofFloat d.toFloat).isFinite then some d.toFloat else none

end Sigil.Number
