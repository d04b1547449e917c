import Sigil.Json.Basic
import Sigil.Number.Numeral

/-!
# Reading JSON text

A text is read as one document with nothing but blanks around it. Arrays and objects may be nested
127 deep. A repeated field keeps its first place and its last value.
-/

namespace Sigil.Json

/-- Blanks between the parts of a document. -/
def skipBlanks (cs : List Char) : List Char :=
  cs.dropWhile fun c => c = ' ' || c = '\n' || c = '\t' || c = '\r'

def hexValue? (c : Char) : Option Nat :=
  if c.isDigit then some (c.toNat - '0'.toNat)
  else if 'a' ≤ c ∧ c ≤ 'f' then some (c.toNat - 'a'.toNat + 10)
  else if 'A' ≤ c ∧ c ≤ 'F' then some (c.toNat - 'A'.toNat + 10)
  else none

def hexUnit? (a b c d : Char) : Option Nat := do
  let a ← hexValue? a
  let b ← hexValue? b
  let c ← hexValue? c
  let d ← hexValue? d
  return ((a * 16 + b) * 16 + c) * 16 + d

/-- The character of a backslash escape of two characters. -/
def shortEscape? (c : Char) : Option Char :=
  if c = '"' ∨ c = '\\' ∨ c = '/' then some c
  else if c = 'b' then some '\x08'
  else if c = 'f' then some '\x0c'
  else if c = 'n' then some '\n'
  else if c = 'r' then some '\r'
  else if c = 't' then some '\t'
  else none

def isHighSurrogate (n : Nat) : Bool := 0xD800 ≤ n && n < 0xDC00
def isLowSurrogate (n : Nat) : Bool := 0xDC00 ≤ n && n < 0xE000

/-- Reads up to the closing quote. A surrogate counts only as half of a pair. -/
def readString? : List Char → Option (List Char × List Char)
  | [] => none
  | '"' :: rest => some ([], rest)
  | '\\' :: 'u' :: a :: b :: c :: d :: '\\' :: 'u' :: a' :: b' :: c' :: d' :: rest => do
    let unit ← hexUnit? a b c d
    if isHighSurrogate unit then
      let low ← hexUnit? a' b' c' d'
      if isLowSurrogate low then
        let (s, rest) ← readString? rest
        return (Char.ofNat (0x10000 + (unit - 0xD800) * 0x400 + (low - 0xDC00)) :: s, rest)
      else none
    else if isLowSurrogate unit then none
    else
      let (s, rest) ← readString? ('\\' :: 'u' :: a' :: b' :: c' :: d' :: rest)
      return (Char.ofNat unit :: s, rest)
  | '\\' :: 'u' :: a :: b :: c :: d :: rest => do
    let unit ← hexUnit? a b c d
    if isHighSurrogate unit || isLowSurrogate unit then none
    else
      let (s, rest) ← readString? rest
      return (Char.ofNat unit :: s, rest)
  | '\\' :: c :: rest => do
    let char ← shortEscape? c
    let (s, rest) ← readString? rest
    return (char :: s, rest)
  | c :: rest =>
    if c.toNat < 0x20 || c = '\\' then none
    else do
      let (s, rest) ← readString? rest
      return (c :: s, rest)

/-- Appends digits to a 64-bit word while the result still fits, and counts the digits used. -/
def packDigits (word : Nat) : List Char → Nat × Nat
  | [] => (word, 0)
  | c :: cs =>
    let next := Number.digitsValue word [c]
    if next < Number.pow2 64 then
      let (w, used) := packDigits next cs
      (w, used + 1)
    else (word, 0)

/-- `x * 10 ^ exponent` in double arithmetic, with at most one rounding per 308 powers of ten; a
result out of range is refused. Three divisions by `1e308` bring every 64-bit word to zero. -/
def scaleByTen : Nat → Float → Int → Option Float
  | 0, x, _ => some x
  | fuel + 1, x, exponent =>
    if exponent < -308 then
      scaleByTen fuel (x / Number.ofRatio false (Number.pow10 308) 1) (exponent + 308)
    else if exponent < 0 then some (x / Number.ofRatio false (Number.pow10 (-exponent).toNat) 1)
    else if x == 0 then some x
    else if 308 < exponent then none
    else
      let y := x * Number.ofRatio false (Number.pow10 exponent.toNat) 1
      if y.isFinite then some y else none

/-- The double of a numeral: its leading digits that fit a 64-bit word, scaled by a power of ten. -/
def readDouble? (negative : Bool) (whole fraction : List Char) (exponent : Int) : Option Float := do
  let (word, used) := packDigits 0 whole
  let (word, usedFraction) := packDigits word fraction
  let x ← scaleByTen 4 (Number.ofInt word) (exponent + (whole.length - used) - usedFraction)
  return if negative then -x else x

/-- An integer from `-2 ^ 63` to `2 ^ 64 - 1` stays exact, minus zero apart. -/
def readInteger? (negative : Bool) (whole : List Char) : Option Json :=
  let n := Number.digitsValue 0 whole
  if negative then
    if 0 < n ∧ n ≤ Number.pow2 63 then some (.int (-n))
    else (readDouble? true whole [] 0).map .float
  else if n < Number.pow2 64 then some (.int n)
  else (readDouble? false whole [] 0).map .float

/-- The power of ten that may end a numeral. -/
def splitExponent? : List Char → Option (Option Int × List Char)
  | [] => some (none, [])
  | c :: cs =>
    if c = 'e' ∨ c = 'E' then
      let (negative, rest) := Number.splitSign cs
      let (digits, rest) := rest.span Char.isDigit
      (Number.readNat? digits).map fun n => (some (if negative then -(n : Int) else n), rest)
    else some (none, c :: cs)

/-- Reads a numeral. A leading zero stands alone, and digits follow a point. -/
def readNumber? (cs : List Char) : Option (Json × List Char) := do
  let (negative, cs) := match cs with
    | '-' :: rest => (true, rest)
    | _ => (false, cs)
  let (whole, cs) ← match cs with
    | '0' :: rest => some (['0'], rest)
    | _ =>
      let (digits, rest) := cs.span Char.isDigit
      if digits.isEmpty then none else some (digits, rest)
  let (fraction, cs) ← match cs with
    | '.' :: rest =>
      let (digits, rest) := rest.span Char.isDigit
      if digits.isEmpty then none else some (some digits, rest)
    | _ => some (none, cs)
  let (exponent, cs) ← splitExponent? cs
  match fraction, exponent with
  | none, none => return (← readInteger? negative whole, cs)
  | _, _ =>
    return (.float (← readDouble? negative whole (fraction.getD []) (exponent.getD 0)), cs)

/-- Drops a given text from the front. -/
def dropText? : List Char → List Char → Option (List Char)
  | [], cs => some cs
  | _ :: _, [] => none
  | c :: expected, d :: cs => if c = d then dropText? expected cs else none

mutual

/-- Reads one document; `depth` more levels may be opened. Every level and every item takes
characters, so fuel in proportion to the length of the text is enough. -/
def readValue? : Nat → Nat → List Char → Option (Json × List Char)
  | 0, _, _ => none
  | fuel + 1, depth, cs =>
    match skipBlanks cs with
    | [] => none
    | '"' :: rest => (readString? rest).map fun (s, rest) => (.string (String.ofList s), rest)
    | '[' :: rest =>
      match depth with
      | 0 => none
      | depth + 1 =>
        match skipBlanks rest with
        | ']' :: rest => some (.array [], rest)
        | rest => (readItems? fuel depth rest).map fun (items, rest) => (.array items, rest)
    | '{' :: rest =>
      match depth with
      | 0 => none
      | depth + 1 =>
        match skipBlanks rest with
        | '}' :: rest => some (.object [], rest)
        | rest => (readFields? fuel depth [] rest).map fun (fields, rest) => (.object fields, rest)
    | 't' :: rest => (dropText? ['r', 'u', 'e'] rest).map (.bool true, ·)
    | 'f' :: rest => (dropText? ['a', 'l', 's', 'e'] rest).map (.bool false, ·)
    | 'n' :: rest => (dropText? ['u', 'l', 'l'] rest).map (.null, ·)
    | rest => readNumber? rest

/-- Reads one or more items and the closing bracket. -/
def readItems? : Nat → Nat → List Char → Option (List Json × List Char)
  | 0, _, _ => none
  | fuel + 1, depth, cs => do
    let (item, rest) ← readValue? fuel depth cs
    match skipBlanks rest with
    | ',' :: rest =>
      let (items, rest) ← readItems? fuel depth rest
      return (item :: items, rest)
    | ']' :: rest => return ([item], rest)
    | _ => none

/-- Reads one or more fields after those already `seen`, and the closing brace. -/
def readFields? : Nat → Nat → List (String × Json) → List Char →
    Option (List (String × Json) × List Char)
  | 0, _, _, _ => none
  | fuel + 1, depth, seen, cs => do
    let rest ← dropText? ['"'] (skipBlanks cs)
    let (name, rest) ← readString? rest
    let rest ← dropText? [':'] (skipBlanks rest)
    let (value, rest) ← readValue? fuel depth rest
    let seen := overwrite (String.ofList name) value seen
    match skipBlanks rest with
    | ',' :: rest => readFields? fuel depth seen rest
    | '}' :: rest => return (seen, rest)
    | _ => none

end

/-- How deep arrays and objects may be nested. -/
def maxDepth : Nat := 127

/-- Reads a text that holds one document. -/
def read? (text : String) : Option Json :=
  let cs := text.toList
  match readValue? (2 * cs.length + 2) maxDepth cs with
  | some (j, rest) => if (skipBlanks rest).isEmpty then some j else none
  | none => none

end Sigil.Json
