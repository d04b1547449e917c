import Sigil.Json.Basic
import Sigil.Number.Style

/-!
# The text of a JSON document

The compact form: no blanks, fields in their order, and only what must be escaped is escaped.
-/

namespace Sigil.Json

/-- Doubles are positional from `1e-5` up to `1e16` and always show a fraction there; a tie between
two shortest decimals goes to the even one. -/
def floatStyle : Number.Style :=
  { tie := .even, positional := fun power => -5 ≤ power && power ≤ 15, pointed := true }

def hexDigit (n : Nat) : Char :=
  if n < 10 then Char.ofNat ('0'.toNat + n) else Char.ofNat ('a'.toNat + n - 10)

/-- Quotes, backslashes and characters below U+0020 are escaped. -/
def escape (c : Char) : List Char :=
  if c = '"' then ['\\', '"']
  else if c = '\\' then ['\\', '\\']
  else if c = '\n' then ['\\', 'n']
  else if c = '\r' then ['\\', 'r']
  else if c = '\t' then ['\\', 't']
  else if c = '\x08' then ['\\', 'b']
  else if c = '\x0c' then ['\\', 'f']
  else if c.toNat < 0x20 then
    ['\\', 'u', '0', '0', hexDigit (c.toNat / 16), hexDigit (c.toNat % 16)]
  else [c]

def quote (s : String) : List Char :=
  '"' :: s.toList.flatMap escape ++ ['"']

def intText (n : Int) : List Char :=
  if n < 0 then '-' :: Nat.toDigits 10 n.natAbs else Nat.toDigits 10 n.natAbs

/-- A double that is not finite has no numeral and is written as `null`. -/
def floatText (x : Float) : List Char :=
  if (Number.Parts.ofFloat x).isFinite then floatStyle.write x else ['n', 'u', 'l', 'l']

mutual

def chars : Json → List Char
  | .null => ['n', 'u', 'l', 'l']
  | .bool true => ['t', 'r', 'u', 'e']
  | .bool false => ['f', 'a', 'l', 's', 'e']
  | .int n => intText n
  | .float x => floatText x
  | .string s => quote s
  | .array [] => ['[', ']']
  | .array (item :: rest) => '[' :: chars item ++ charsItems rest
  | .object [] => ['{', '}']
  | .object ((k, v) :: rest) => '{' :: quote k ++ ':' :: chars v ++ charsFields rest

/-- The items after the first, with the closing bracket. -/
def charsItems : List Json → List Char
  | [] => [']']
  | item :: rest => ',' :: chars item ++ charsItems rest

/-- The fields after the first, with the closing brace. -/
def charsFields : List (String × Json) → List Char
  | [] => ['}']
  | (k, v) :: rest => ',' :: quote k ++ ':' :: chars v ++ charsFields rest

end

def render (j : Json) : String := String.ofList (chars j)

end Sigil.Json
