import Sigil.Yaml.Token

/-!
# From text to tokens

Block collections are recognised by indentation: a collection begins at an item further right than
the enclosing one and ends at the first line further left. A mapping key without `?` is known only
by the `:` after it, so the lexer remembers, for each level of flow nesting, where the last token
that could be a key begins, and puts the token `key` there once it meets the `:`.
-/

namespace Sigil.Yaml

/-- The place of a token that may turn out to be a key. -/
structure Candidate where
  /-- Tokens before it. -/
  number : Nat
  index : Nat
  line : Nat
  column : Nat
  /-- It stands where only a key can stand. -/
  required : Bool

/-- How far a key may reach, in characters. -/
def maxKeyLength : Nat := 1024

structure Lexer where
  cursor : Cursor
  /-- The tokens so far, the last one first. -/
  tokens : List Token := []
  count : Nat := 0
  /-- One more than the column of the innermost block collection; zero outside of all. -/
  margin : Nat := 0
  /-- The margins of the enclosing block collections. -/
  margins : List Nat := []
  /-- The last possible key of each flow level, the innermost first. -/
  candidates : List (Option Candidate) := [none]
  /-- A key or a block collection may begin here. -/
  keyAllowed : Bool := true

namespace Lexer

/-- Inside a flow collection. -/
def inFlow (lx : Lexer) : Bool := 1 < lx.candidates.length

def emit (t : Token) (lx : Lexer) : Lexer :=
  { lx with tokens := t :: lx.tokens, count := lx.count + 1 }

/-- Puts a token behind the first `number` tokens. -/
def insert (number : Nat) (t : Token) (lx : Lexer) : Lexer :=
  let after := lx.count - number
  { lx with tokens := lx.tokens.take after ++ t :: lx.tokens.drop after, count := lx.count + 1 }

def allowKey (allowed : Bool) (lx : Lexer) : Lexer := { lx with keyAllowed := allowed }

def skip (n : Nat) (lx : Lexer) : Lexer := { lx with cursor := lx.cursor.drop n }

/-! ## Keys -/

/-- The candidate is too far back to be a key: on an earlier line, or too long. -/
def isStale (cur : Cursor) (c : Candidate) : Bool :=
  c.line < cur.line || c.index + maxKeyLength < cur.index

/-- Gives up stale candidates, none of which may be required. -/
def dropStale? (lx : Lexer) : Option Lexer :=
  let stale (c? : Option Candidate) : Bool := c?.any (isStale lx.cursor)
  if lx.candidates.any fun c? => stale c? && c?.any (·.required) then none
  else some { lx with candidates := lx.candidates.map fun c? => if stale c? then none else c? }

/-- Gives up the innermost candidate, which may not be required. -/
def dropCandidate? (lx : Lexer) : Option Lexer :=
  match lx.candidates with
  | some c :: outer => if c.required then none else some { lx with candidates := none :: outer }
  | _ => some lx

/-- Remembers the token that begins here as a possible key. -/
def saveCandidate? (lx : Lexer) : Option Lexer :=
  if !lx.keyAllowed then some lx
  else do
    let lx ← lx.dropCandidate?
    let cur := lx.cursor
    let candidate : Candidate :=
      { number := lx.count, index := cur.index, line := cur.line, column := cur.column,
        required := !lx.inFlow && lx.margin == cur.column + 1 }
    return { lx with candidates := some candidate :: lx.candidates.tail }

/-! ## Block collections -/

/-- Begins a block collection at a column to the right of the innermost one, with its token behind
the first `number` tokens. -/
def indent (column number : Nat) (t : Token) (lx : Lexer) : Lexer :=
  if lx.inFlow || column + 1 ≤ lx.margin then lx
  else insert number t { lx with margin := column + 1, margins := lx.margin :: lx.margins }

/-- Ends the block collections whose margin is greater than `margin`. -/
def endBlocks (margin : Nat) : List Nat → Lexer → Lexer
  | [], lx => lx
  | outer :: margins, lx =>
    if margin < lx.margin then
      endBlocks margin margins (emit .blockEnd { lx with margin := outer, margins })
    else lx

/-- Ends the block collections that do not reach to the left as far as `margin`. -/
def dedent (margin : Nat) (lx : Lexer) : Lexer :=
  if lx.inFlow then lx else endBlocks margin lx.margins lx

/-! ## Tokens -/

/-- Skips spaces, comments and line breaks, at most `n` lines. Tabs count as spaces unless they
could be taken for indentation. -/
def skipGap : Nat → Lexer → Lexer
  | 0, lx => lx
  | n + 1, lx =>
    let cur := if lx.cursor.index = 0 && lx.cursor.rest.head? = some '\uFEFF' then lx.cursor.advance
      else lx.cursor
    let tabs := lx.inFlow || !lx.keyAllowed
    let cur := (cur.dropWhile fun c => c = ' ' || (tabs && c = '\t')).dropComment
    if cur.rest.head?.any isBreak then
      skipGap n { lx with cursor := cur.advance, keyAllowed := lx.keyAllowed || !lx.inFlow }
    else { lx with cursor := cur }

/-- Ends all blocks for something that stands outside of them. -/
def leaveBlocks? (lx : Lexer) : Option Lexer := do
  let lx ← (lx.dedent 0).dropCandidate?
  return lx.allowKey false

def openFlow? (t : Token) (lx : Lexer) : Option Lexer := do
  let lx ← lx.saveCandidate?
  return emit t (skip 1 { lx with candidates := none :: lx.candidates, keyAllowed := true })

def closeFlow? (t : Token) (lx : Lexer) : Option Lexer := do
  let lx ← lx.dropCandidate?
  let candidates := if lx.inFlow then lx.candidates.tail else lx.candidates
  return emit t (skip 1 { lx with candidates, keyAllowed := false })

/-- An indicator that begins an entry: `-` or `?`. -/
def entry? (start t : Token) (keyAfter : Bool) (lx : Lexer) : Option Lexer :=
  if !lx.inFlow && !lx.keyAllowed then none
  else do
    let lx ← (lx.indent lx.cursor.column lx.count start).dropCandidate?
    return emit t (skip 1 (lx.allowKey keyAfter))

/-- The indicator `:` after a key, or after nothing in place of one. -/
def value? (lx : Lexer) : Option Lexer :=
  match lx.candidates with
  | some c :: outer =>
    let lx := (lx.insert c.number .key).indent c.column c.number .blockMappingStart
    some (emit .value (skip 1 { lx with candidates := none :: outer, keyAllowed := false }))
  | _ =>
    if !lx.inFlow && !lx.keyAllowed then none
    else
      let lx := lx.indent lx.cursor.column lx.count .blockMappingStart
      some (emit .value (skip 1 (lx.allowKey !lx.inFlow)))

/-- A token that may be a key and is read by `read`. -/
def keyLike? (read : Cursor → Option (Token × Cursor)) (lx : Lexer) : Option Lexer := do
  let lx ← lx.saveCandidate?
  let (t, cursor) ← read lx.cursor
  return emit t { lx with cursor, keyAllowed := false }

/-- An anchor or an alias at its indicator. -/
def named? (make : List Char → Token) (cur : Cursor) : Option (Token × Cursor) :=
  (Token.anchorName? cur.advance).map fun (name, cur) => (make name, cur)

def quotedScalar? (double : Bool) (cur : Cursor) : Option (Token × Cursor) :=
  (quoted? double cur).map fun (text, cur) => (.scalar text false, cur)

def plainScalar? (lx : Lexer) : Option Lexer := do
  let lx ← lx.saveCandidate?
  let p ← plain? lx.inFlow lx.margin lx.cursor
  return emit (.scalar p.text true) { lx with cursor := p.after, keyAllowed := p.newLine }

def blockScalar? (folded : Bool) (lx : Lexer) : Option Lexer := do
  let lx ← lx.dropCandidate?
  let (text, cursor) ← block? folded lx.margin lx.cursor.advance
  return emit (.scalar text false) { lx with cursor, keyAllowed := true }

/-- Characters with a meaning of their own, with which no plain scalar begins. -/
def isIndicator (c : Char) : Bool :=
  ['-', '?', ':', ',', '[', ']', '\x7b', '\x7d', '#', '&', '*', '!', '|', '>', '\'', '"', '%', '@',
    '\x60'].contains c

/-- A plain scalar begins here. -/
def startsPlain (flow : Bool) : List Char → Bool
  | [] => false
  | c :: rest =>
    !(isGap c || isIndicator c) || (c = '-' && !rest.head?.any isSpace) ||
      (!flow && (c = '?' || c = ':') && !endsWord rest)

/-- Reads the token that begins with `c`. -/
def token? (c : Char) (rest : List Char) (lx : Lexer) : Option Lexer :=
  let cur := lx.cursor
  if c = '%' && cur.column = 0 then do
    let lx ← lx.leaveBlocks?
    let (t, cursor) ← Token.directive? cur
    return emit t { lx with cursor }
  else if cur.atMarks '-' then lx.leaveBlocks?.map fun lx => emit .documentStart (lx.skip 3)
  else if cur.atMarks '.' then lx.leaveBlocks?.map fun lx => emit .documentEnd (lx.skip 3)
  else if c = '[' then lx.openFlow? .flowSequenceStart
  else if c = '\x7b' then lx.openFlow? .flowMappingStart
  else if c = ']' then lx.closeFlow? .flowSequenceEnd
  else if c = '\x7d' then lx.closeFlow? .flowMappingEnd
  else if c = ',' then lx.dropCandidate?.map fun lx => emit .flowEntry (skip 1 (lx.allowKey true))
  else if c = '-' && endsWord rest then lx.entry? .blockSequenceStart .blockEntry true
  else if c = '?' && (lx.inFlow || endsWord rest) then lx.entry? .blockMappingStart .key !lx.inFlow
  else if c = ':' && (lx.inFlow || endsWord rest) then lx.value?
  else if c = '*' then lx.keyLike? (named? .alias)
  else if c = '&' then lx.keyLike? (named? .anchor)
  else if c = '!' then lx.keyLike? (Token.tag? lx.inFlow)
  else if c = '|' && !lx.inFlow then lx.blockScalar? false
  else if c = '>' && !lx.inFlow then lx.blockScalar? true
  else if c = '\'' then lx.keyLike? (quotedScalar? false)
  else if c = '"' then lx.keyLike? (quotedScalar? true)
  else if startsPlain lx.inFlow (c :: rest) then lx.plainScalar?
  else none

/-- Reads at most `n` tokens, to the end of the text. -/
def run? : Nat → Lexer → Option (List Token)
  | 0, _ => none
  | n + 1, lx => do
    let lx ← (lx.skipGap (lx.cursor.rest.length + 1)).dropStale?
    let lx := lx.dedent (lx.cursor.column + 1)
    match lx.cursor.rest with
    | [] =>
      let lx ← lx.leaveBlocks?
      return lx.tokens.reverse
    | c :: rest => (lx.token? c rest).bind (run? n)

end Lexer

/-- The tokens of a text. -/
def Token.scan? (text : String) : Option (List Token) :=
  let cs := text.toList
  if cs.all isPrintable then
    let cursor : Cursor := { rest := unifyBreaks cs }
    Lexer.run? (cs.length + 1) { cursor }
  else none

end Sigil.Yaml
