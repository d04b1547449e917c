import Sigil.Json.Reader
import Sigil.Toml.Basic

/-!
# TOML strings, numbers and dates

The readers take a text apart into what they read and what is left.
-/

namespace Sigil.Toml

def isSpace (c : Char) : Bool := c = ' ' || c = '\t'

/-- Characters of comments and strings: all but control characters, tab excepted. -/
def isTextChar (c : Char) : Bool := c = '\t' || (0x20 ≤ c.toNat && c.toNat ≠ 0x7F)

/-- Drops one line break. -/
def newline? : List Char → Option (List Char)
  | '\n' :: rest => some rest
  | '\r' :: '\n' :: rest => some rest
  | _ => none

/-- Drops a comment, if one begins here. -/
def dropComment : List Char → List Char
  | '#' :: rest => rest.dropWhile isTextChar
  | cs => cs

/-- Drops spaces, a comment and the end of the line. -/
def endLine? (cs : List Char) : Option (List Char) :=
  match dropComment (cs.dropWhile isSpace) with
  | [] => some []
  | rest => newline? rest

/-- Drops spaces and line breaks, at most `n` lines. -/
def dropBlankLines : Nat → List Char → List Char
  | 0, cs => cs
  | n + 1, cs =>
    let rest := cs.dropWhile isSpace
    match newline? rest with
    | some rest => dropBlankLines n rest
    | none => rest

/-- Drops spaces, comments and line breaks, at most `n` lines. -/
def dropGap : Nat → List Char → List Char
  | 0, cs => cs
  | n + 1, cs =>
    let rest := dropComment (cs.dropWhile isSpace)
    match newline? rest with
    | some rest => dropGap n rest
    | none => rest

/-! ## Strings -/

def escaped? (c : Char) : Option Char :=
  match c with
  | 'b' => some '\x08'
  | 't' => some '\t'
  | 'n' => some '\n'
  | 'f' => some '\x0c'
  | 'r' => some '\r'
  | '"' => some '"'
  | '\\' => some '\\'
  | _ => none

def hexNat? (cs : List Char) : Option Nat :=
  cs.foldlM (fun n c => (Json.hexValue? c).map (16 * n + ·)) 0

/-- Reads what follows a backslash. -/
def unescape? : List Char → Option (Char × List Char)
  | [] => none
  | c :: rest =>
    let length := if c = 'u' then 4 else if c = 'U' then 8 else 0
    if length = 0 then (escaped? c).map (·, rest)
    else if (rest.take length).length < length then none
    else do
      let code ← hexNat? (rest.take length)
      if code.isValidChar then some (Char.ofNat code, rest.drop length) else none

/-- Reads a string after its double quote, at most `n` characters. -/
def readBasic? : Nat → List Char → Option (List Char × List Char)
  | 0, _ => none
  | _ + 1, [] => none
  | n + 1, c :: rest =>
    if c = '"' then some ([], rest)
    else if c = '\\' then do
      let (d, rest) ← unescape? rest
      let (text, rest) ← readBasic? n rest
      return (d :: text, rest)
    else if isTextChar c then (readBasic? n rest).map fun (text, rest) => (c :: text, rest)
    else none

/-- Reads a string after its apostrophe. -/
def readLiteral? (cs : List Char) : Option (List Char × List Char) :=
  let text := cs.takeWhile fun c => c ≠ '\'' && isTextChar c
  match cs.drop text.length with
  | '\'' :: rest => some (text, rest)
  | _ => none

/-- Reads a string of several lines up to three quotes, at most `n` pieces. Up to two quotes may
stand before the closing ones. In a double-quoted string a backslash at the end of a line takes away
all space up to the next text. -/
def readMultiline? (quote : Char) : Nat → List Char → Option (List Char × List Char)
  | 0, _ => none
  | _ + 1, [] => none
  | n + 1, c :: rest =>
    let more (text rest : List Char) : Option (List Char × List Char) :=
      (readMultiline? quote n rest).map fun (tail, rest) => (text ++ tail, rest)
    if c = quote then
      let quotes := (c :: rest).takeWhile (· = quote)
      let rest := (c :: rest).drop quotes.length
      if quotes.length < 3 then more quotes rest
      else if quotes.length ≤ 5 then some (quotes.drop 3, rest)
      else none
    else if quote = '"' && c = '\\' then
      match newline? (rest.dropWhile isSpace) with
      | some after => more [] (dropBlankLines after.length after)
      | none => (unescape? rest).bind fun (d, rest) => more [d] rest
    else match newline? (c :: rest) with
      | some rest => more ['\n'] rest
      | none => if isTextChar c then more [c] rest else none

/-- Reads a string of several lines after its three quotes; a line break right after them does not
count. -/
def multiline? (quote : Char) (cs : List Char) : Option (List Char × List Char) :=
  let body := (newline? cs).getD cs
  readMultiline? quote (body.length + 1) body

/-- Reads a string of one line. -/
def line? : List Char → Option (List Char × List Char)
  | '"' :: rest => readBasic? (rest.length + 1) rest
  | '\'' :: rest => readLiteral? rest
  | _ => none

def string? : List Char → Option (List Char × List Char)
  | '"' :: '"' :: '"' :: rest => multiline? '"' rest
  | '\'' :: '\'' :: '\'' :: rest => multiline? '\'' rest
  | cs => line? cs

/-! ## Numbers -/

/-- Reads digits, which underscores may separate. -/
def digits (isDigit : Char → Bool) : List Char → List Char × List Char
  | '_' :: c :: rest =>
    if isDigit c then
      let (ds, rest) := digits isDigit rest
      (c :: ds, rest)
    else ([], '_' :: c :: rest)
  | c :: rest =>
    if isDigit c then
      let (ds, rest) := digits isDigit rest
      (c :: ds, rest)
    else ([], c :: rest)
  | [] => ([], [])

/-- Reads one or more digits. -/
def digits? (isDigit : Char → Bool) (cs : List Char) : Option (List Char × List Char) :=
  if cs.head?.any isDigit then some (digits isDigit cs) else none

def sign : List Char → List Char × List Char
  | '+' :: rest => (['+'], rest)
  | '-' :: rest => (['-'], rest)
  | cs => ([], cs)

/-- Reads a signed decimal integer without leading zeros. -/
def decimal? (cs : List Char) : Option (List Char × List Char) :=
  let (s, rest) := sign cs
  match rest with
  | '0' :: rest => some (s ++ ['0'], rest)
  | _ => (digits? Char.isDigit rest).map fun (ds, rest) => (s ++ ds, rest)

/-- Reads digits of a base. -/
def based? (base : Nat) (cs : List Char) : Option (Int × List Char) := do
  let isDigit (c : Char) : Bool := (Json.hexValue? c).any (· < base)
  let (ds, rest) ← digits? isDigit cs
  let n := ds.foldl (fun n c => base * n + (Json.hexValue? c).getD 0) 0
  return ((n : Int), rest)

/-- Reads a 64-bit integer. -/
def integer? (cs : List Char) : Option (Toml × List Char) := do
  let (n, rest) ← match cs with
    | '0' :: 'x' :: rest => based? 16 rest
    | '0' :: 'o' :: rest => based? 8 rest
    | '0' :: 'b' :: rest => based? 2 rest
    | _ => (decimal? cs).bind fun (text, rest) => (Number.readInt? text).map (·, rest)
  if Int64.minValue.toInt ≤ n ∧ n ≤ Int64.maxValue.toInt then some (.integer n, rest) else none

def exponent? : List Char → Option (List Char × List Char)
  | c :: rest =>
    if c = 'e' || c = 'E' then
      let (s, rest) := sign rest
      (digits? Char.isDigit rest).map fun (ds, rest) => ('e' :: s ++ ds, rest)
    else none
  | [] => none

def fraction? : List Char → Option (List Char × List Char)
  | '.' :: rest => (digits? Char.isDigit rest).map fun (ds, rest) => ('.' :: ds, rest)
  | _ => none

/-- Reads the words for infinity and for what is no number. -/
def special? (cs : List Char) : Option (Float × List Char) :=
  let (s, rest) := sign cs
  match rest with
  | 'i' :: 'n' :: 'f' :: rest => some (Number.infinity (s = ['-']), rest)
  | 'n' :: 'a' :: 'n' :: rest => some (Float.ofBits 0x7FF8000000000000, rest)
  | _ => none

/-- Reads a number with a fraction, an exponent or both. It may not be too large. -/
def float? (cs : List Char) : Option (Toml × List Char) :=
  match special? cs with
  | some (x, rest) => some (.float x, rest)
  | none => do
    let (whole, rest) ← decimal? cs
    let (frac, afterFrac) := (fraction? rest).getD ([], rest)
    let (exp, rest) ← match exponent? afterFrac with
      | some (exp, rest) => some (exp, rest)
      | none => if frac.isEmpty then none else some ([], afterFrac)
    let d ← Number.Decimal.read? (whole ++ frac ++ exp)
    let x := d.toFloat
    if x == Number.infinity false then none else some (.float x, rest)

/-! ## Dates and times -/

/-- Reads exactly `n` digits as a number in a range. -/
def field? (n least most : Nat) (cs : List Char) : Option (Nat × List Char) :=
  let ds := cs.take n
  let value := Number.digitsValue 0 ds
  if ds.length = n && ds.all Char.isDigit && least ≤ value && value ≤ most then
    some (value, cs.drop n)
  else none

def expect? (c : Char) : List Char → Option (List Char)
  | d :: rest => if c = d then some rest else none
  | [] => none

def daysIn (year month : Nat) : Nat :=
  if month = 2 then
    if year % 4 = 0 && (year % 100 ≠ 0 || year % 400 = 0) then 29 else 28
  else if month = 4 || month = 6 || month = 9 || month = 11 then 30
  else 31

def date? (cs : List Char) : Option (List Char) := do
  let (year, cs) ← field? 4 0 9999 cs
  let cs ← expect? '-' cs
  let (month, cs) ← field? 2 1 12 cs
  let cs ← expect? '-' cs
  let (_, cs) ← field? 2 1 (daysIn year month) cs
  return cs

def time? (cs : List Char) : Option (List Char) := do
  let (_, cs) ← field? 2 0 23 cs
  let cs ← expect? ':' cs
  let (_, cs) ← field? 2 0 59 cs
  let cs ← expect? ':' cs
  let (_, cs) ← field? 2 0 60 cs
  match cs with
  | '.' :: c :: rest => if c.isDigit then some (rest.dropWhile Char.isDigit) else some cs
  | _ => some cs

def offset? : List Char → Option (List Char)
  | 'Z' :: rest => some rest
  | 'z' :: rest => some rest
  | c :: rest =>
    if c = '+' || c = '-' then do
      let (_, cs) ← field? 2 0 23 rest
      let cs ← expect? ':' cs
      let (_, cs) ← field? 2 0 59 cs
      return cs
    else none
  | [] => none

/-- Drops the time after a date, if there is one, and its offset. -/
def dropTime (cs : List Char) : List Char :=
  match cs with
  | c :: rest =>
    if c = 'T' || c = 't' || c = ' ' then
      match time? rest with
      | some rest => (offset? rest).getD rest
      | none => cs
    else cs
  | [] => cs

def moment? (cs : List Char) : Option (Toml × List Char) := do
  let rest ← match date? cs with
    | some rest => some (dropTime rest)
    | none => time? cs
  return (.moment (String.ofList (cs.take (cs.length - rest.length))), rest)

/-! ## Scalars -/

def dropText? : List Char → List Char → Option (List Char)
  | [], cs => some cs
  | t :: ts, c :: cs => if t = c then dropText? ts cs else none
  | _ :: _, [] => none

def boolean? (cs : List Char) : Option (Toml × List Char) :=
  match dropText? "true".toList cs with
  | some rest => some (.boolean true, rest)
  | none => (dropText? "false".toList cs).map (.boolean false, ·)

/-- Reads a value that has no parts. -/
def scalar? (cs : List Char) : Option (Toml × List Char) :=
  match cs with
  | [] => none
  | c :: _ =>
    if c = '"' || c = '\'' then
      (string? cs).map fun (text, rest) => (.string (String.ofList text), rest)
    else (moment? cs).or ((float? cs).or ((integer? cs).or (boolean? cs)))

end Sigil.Toml
