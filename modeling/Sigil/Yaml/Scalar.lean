import Sigil.Json.Reader
import Sigil.Yaml.Cursor

/-!
# Scalars

Plain, quoted and block scalars. A line break inside a plain or quoted scalar is folded: one break
becomes a space, and of several the first is dropped.
-/

namespace Sigil.Yaml

/-- What the spaces and breaks between two words of a scalar come to. -/
def foldGap (gap : List Char) : List Char :=
  match gap.filter isBreak with
  | [] => gap
  | ['\n'] => [' ']
  | '\n' :: more => more
  | breaks => breaks

/-- A tab stands in a gap where its line is not yet indented by `margin`. The column is known only
after the first break of the gap. -/
def hasEarlyTab (margin : Nat) : Option Nat → List Char → Bool
  | _, [] => false
  | column?, c :: rest =>
    if isBreak c then hasEarlyTab margin (some 0) rest
    else match column? with
      | some column =>
        (c = '\t' && decide (column < margin)) || hasEarlyTab margin (some (column + 1)) rest
      | none => hasEarlyTab margin none rest

/-! ## Plain scalars -/

def isFlowIndicator (c : Char) : Bool := c = ',' || c = '[' || c = ']' || c = '\x7b' || c = '\x7d'

/-- The next word of a plain scalar. A colon before a gap ends it, and so does an indicator of a
flow collection inside one; there a colon must not touch an indicator. -/
def plainWord? (flow : Bool) : List Char → Option (List Char)
  | [] => some []
  | c :: rest =>
    if isGap c then some []
    else if flow && c = ':' && rest.head?.any (fun d => isFlowIndicator d || d = '?') then none
    else if (c = ':' && endsWord rest) || (flow && isFlowIndicator c) then some []
    else (plainWord? flow rest).map (c :: ·)

/-- A scalar that was read, whether it ended on a new line, and what follows. -/
structure Plain where
  text : List Char
  newLine : Bool
  after : Cursor

/-- Reads words and the gaps between them, at most `n` words. Lines after the first are indented by
at least `margin`. -/
def readPlain? (flow : Bool) (margin : Nat) : Nat → List Char → List Char → Cursor → Option Plain
  | 0, _, _, _ => none
  | n + 1, text, gap, cur =>
    if cur.atDocumentBoundary || cur.rest.head? = some '#' then
      some { text, newLine := gap.any isBreak, after := cur }
    else do
      let word ← plainWord? flow cur.rest
      let text := if word.isEmpty then text else text ++ foldGap gap ++ word
      let cur := cur.drop word.length
      let next := cur.rest.takeWhile isGap
      if next.isEmpty then
        return { text, newLine := word.isEmpty && gap.any isBreak, after := cur }
      else if hasEarlyTab margin none next then none
      else
        let after := cur.drop next.length
        if !flow && decide (after.column < margin) then
          return { text, newLine := next.any isBreak, after }
        else readPlain? flow margin n text next after

def plain? (flow : Bool) (margin : Nat) (cur : Cursor) : Option Plain :=
  readPlain? flow margin (cur.rest.length + 1) [] [] cur

/-! ## Quoted scalars -/

/-- The character that one character after a backslash stands for. -/
def escaped? (c : Char) : Option Char :=
  match c with
  | '0' => some '\x00'
  | 'a' => some '\x07'
  | 'b' => some '\x08'
  | 't' | '\t' => some '\t'
  | 'n' => some '\n'
  | 'v' => some '\x0b'
  | 'f' => some '\x0c'
  | 'r' => some '\r'
  | 'e' => some '\x1b'
  | ' ' => some ' '
  | '"' => some '"'
  | '/' => some '/'
  | '\\' => some '\\'
  | 'N' => some '\u0085'
  | '_' => some '\u00a0'
  | 'L' => some '\u2028'
  | 'P' => some '\u2029'
  | _ => none

/-- How many hexadecimal digits follow an escape. -/
def codeLength? (c : Char) : Option Nat :=
  match c with
  | 'x' => some 2
  | 'u' => some 4
  | 'U' => some 8
  | _ => none

def hexNat? (cs : List Char) : Option Nat :=
  cs.foldlM (fun n c => (Json.hexValue? c).map (16 * n + ·)) 0

/-- A character by its number, surrogates excluded. -/
def charOfNat? (n : Nat) : Option Char := if n.isValidChar then some (Char.ofNat n) else none

/-- Reads what follows a backslash, with the number of characters that it takes. -/
def unescape? : List Char → Option (Char × Nat)
  | [] => none
  | c :: rest =>
    match codeLength? c with
    | some n => do
      let digits := rest.take n
      if digits.length < n then none
      else
        let c ← charOfNat? (← hexNat? digits)
        return (c, n + 1)
    | none => (escaped? c).map (·, 1)

/-- The next word between quotes and the number of characters it takes, reading at most `n` of
them. -/
def quotedWord? (double : Bool) : Nat → List Char → Option (List Char × Nat)
  | 0, _ => some ([], 0)
  | _ + 1, [] => some ([], 0)
  | n + 1, c :: rest =>
    if isGap c then some ([], 0)
    else if double && c = '\\' then
      if rest.head?.any isBreak then some ([], 0)
      else do
        let (d, taken) ← unescape? rest
        let (word, length) ← quotedWord? double n (rest.drop taken)
        return (d :: word, length + taken + 1)
    else if !double && c = '\'' && rest.head? = some '\'' then do
      let (word, length) ← quotedWord? double n rest.tail
      return ('\'' :: word, length + 2)
    else if c = (if double then '"' else '\'') then some ([], 0)
    else do
      let (word, length) ← quotedWord? double n rest
      return (c :: word, length + 1)

/-- Reads words up to the closing quote, at most `n`. An escaped break joins two lines. -/
def readQuoted? (double : Bool) : Nat → List Char → Cursor → Option (List Char × Cursor)
  | 0, _, _ => none
  | n + 1, text, cur =>
    if cur.atDocumentBoundary || cur.rest.isEmpty then none
    else do
      let (word, length) ← quotedWord? double cur.rest.length cur.rest
      let text := text ++ word
      let cur := cur.drop length
      match cur.rest with
      | [] => none
      | c :: _ =>
        if c = (if double then '"' else '\'') then return (text, cur.advance)
        else if c = '\\' then
          let cur := cur.drop 2
          let gap := cur.rest.takeWhile isGap
          readQuoted? double n (text ++ gap.filter isBreak) (cur.drop gap.length)
        else
          let gap := cur.rest.takeWhile isGap
          readQuoted? double n (text ++ foldGap gap) (cur.drop gap.length)

/-- Reads a quoted scalar at its opening quote. -/
def quoted? (double : Bool) (cur : Cursor) : Option (List Char × Cursor) :=
  readQuoted? double (cur.rest.length + 1) [] cur.advance

/-! ## Block scalars -/

/-- What happens to the line breaks at the end of a block scalar. -/
inductive Chomping where
  | strip
  | clip
  | keep
deriving DecidableEq

def Chomping.ofChar? : Char → Option Chomping
  | '+' => some .keep
  | '-' => some .strip
  | _ => none

/-- The digit of an indentation indicator, zero if there is none; a zero may not be written. -/
def indentDigit? : List Char → Option (Nat × List Char)
  | [] => some (0, [])
  | c :: rest =>
    if c = '0' then none
    else if c.isDigit then some (c.toNat - '0'.toNat, rest)
    else some (0, c :: rest)

/-- Reads the two indicators, in either order. -/
def blockHeader? : List Char → Option (Chomping × Nat × List Char)
  | [] => some (.clip, 0, [])
  | c :: rest =>
    match Chomping.ofChar? c with
    | some chomping => (indentDigit? rest).map fun (n, rest) => (chomping, n, rest)
    | none => do
      let (n, after) ← indentDigit? (c :: rest)
      match if n = 0 then none else after.head?.bind Chomping.ofChar? with
      | some chomping => return (chomping, n, after.tail)
      | none => return (.clip, n, after)

/-- Empty lines before a line of a block scalar. -/
structure BlockGap where
  breaks : List Char
  /-- The widest indentation met. -/
  widest : Nat
  after : Cursor

/-- Skips indentation and empty lines. An `indent` of zero is not known yet. -/
def readBlockGap? (indent : Nat) : Nat → List Char → Nat → Cursor → Option BlockGap
  | 0, _, _, _ => none
  | n + 1, breaks, widest, cur =>
    let spaces := (cur.rest.takeWhile (· = ' ')).length
    let cur := cur.drop (if indent = 0 then spaces else min spaces (indent - cur.column))
    let widest := max widest cur.column
    match cur.rest with
    | [] => some { breaks, widest, after := cur }
    | c :: _ =>
      if c = '\t' && (indent = 0 || cur.column < indent) then none
      else if isBreak c then readBlockGap? indent n (breaks ++ [c]) widest cur.advance
      else some { breaks, widest, after := cur }

def blockGap? (indent : Nat) (cur : Cursor) : Option BlockGap :=
  readBlockGap? indent (cur.rest.length + 1) [] 0 cur

/-- A block scalar up to some line: its text, the break after the last line, the empty lines after
that, and whether the last line began with a space. -/
structure BlockText where
  text : List Char := []
  lastBreak : List Char := []
  breaks : List Char
  spaced : Bool := false

/-- Adds a line. Folding replaces the break between two lines by a space, but keeps breaks next to
empty lines and to lines that begin with a space. -/
def BlockText.add (folded : Bool) (b : BlockText) (line : List Char) : List Char :=
  let joint :=
    if folded && b.lastBreak = ['\n'] && !b.spaced && !line.head?.any isSpace then
      if b.breaks.isEmpty then [' '] else []
    else b.lastBreak
  b.text ++ joint ++ b.breaks ++ line

def readBlockLines? (folded : Bool) (indent : Nat) : Nat → BlockText → Cursor →
    Option (BlockText × Cursor)
  | 0, _, _ => none
  | n + 1, b, cur =>
    if cur.column = indent && !cur.rest.isEmpty then do
      let line := cur.rest.takeWhile (!isBreak ·)
      let cur := cur.drop line.length
      let lastBreak := cur.rest.take 1
      let gap ← blockGap? indent cur.advance
      let b := { text := b.add folded line, lastBreak, breaks := gap.breaks,
                 spaced := line.head?.any isSpace }
      readBlockLines? folded indent n b gap.after
    else some (b, cur)

/-- Reads a block scalar after its `|` or `>`, inside a block whose content starts at column
`margin`. -/
def block? (folded : Bool) (margin : Nat) (cur : Cursor) : Option (List Char × Cursor) := do
  let (chomping, digit, rest) ← blockHeader? cur.rest
  let cur := (cur.drop (cur.rest.length - rest.length)).dropWhile isSpace
  let cur := cur.dropComment
  if !endsLine cur.rest then none
  else
    let given := if digit = 0 then 0 else margin - 1 + digit
    let gap ← blockGap? given cur.advance
    let indent := if given = 0 then max (max gap.widest margin) 1 else given
    let (b, cur) ← readBlockLines? folded indent (cur.rest.length + 1) { breaks := gap.breaks }
      gap.after
    let tail := match chomping with
      | .strip => []
      | .clip => b.lastBreak
      | .keep => b.lastBreak ++ b.breaks
    return (b.text ++ tail, cur)

end Sigil.Yaml
