import Sigil.Regex.Basic
import Sigil.Regex.Property
import Sigil.Text.Blank
import Sigil.Text.Folding
import Sigil.Number.Numeral

/-!
# Reading patterns

The pattern language has alternation, loops, groups with flags, character classes with set
operations, and anchors. It has neither look-around nor back-references: a pattern that asks for
them, like any other malformed pattern, is refused.
-/

namespace Sigil.Regex

open Text

/-- The switches that a pattern may change as it goes. -/
structure Flags where
  ignoreCase : Bool := false
  multiLine : Bool := false
  dotAll : Bool := false
  swapGreed : Bool := false
  unicode : Bool := true
  crlf : Bool := false
  verbose : Bool := false

/-- A part of a pattern: what it matches, how deep its tree is, and whether a loop may follow. -/
structure Part where
  regex : Regex
  depth : Nat := 0
  repeatable : Bool := true

/-- The pattern still to be read and the group names used so far. -/
structure Reading where
  rest : List Char
  names : List String := []

abbrev ReadM := StateT Reading Option

def fail {α : Type} : ReadM α := fun _ => none

def peek? : ReadM (Option Char) := return (← get).rest.head?

def skip (n : Nat) : ReadM Unit := modify fun s => { s with rest := s.rest.drop n }

/-- Takes the given text off the front if it is there. -/
def accept (text : List Char) : ReadM Bool := do
  if text.isPrefixOf (← get).rest then
    skip text.length
    return true
  else return false

/-- Drops blanks and comments; a comment runs to the end of its line. -/
def dropVerbose : Nat → List Char → List Char
  | 0, cs => cs
  | fuel + 1, cs =>
    match cs with
    | [] => []
    | c :: rest =>
      if isBlank c then dropVerbose fuel rest
      else if c = '#' then dropVerbose fuel ((rest.dropWhile (· ≠ '\n')).drop 1)
      else cs

/-- In verbose mode blanks and comments do not count. -/
def skipSpace (flags : Flags) : ReadM Unit :=
  if flags.verbose then
    modify fun s => { s with rest := dropVerbose (s.rest.length + 1) s.rest }
  else pure ()

/-- Takes a character that must be there. -/
def next : ReadM Char := do
  match (← get).rest with
  | [] => fail
  | c :: rest =>
    modify fun s => { s with rest }
    return c

def isHex (c : Char) : Bool :=
  c.isDigit || ('a' ≤ c && c ≤ 'f') || ('A' ≤ c && c ≤ 'F')

def hexNumber (digits : List Char) : Nat :=
  digits.foldl (fun n c =>
    16 * n + (if c.isDigit then c.toNat - '0'.toNat else c.toLower.toNat - 'a'.toNat + 10)) 0

def charOfCode? (n : Nat) : Option Char :=
  if h : n.isValidChar then some (Char.ofNatAux n h) else none

/-- Takes up to the next closing brace, without it. -/
def untilBrace (flags : Flags) : Nat → ReadM (List Char)
  | 0 => fail
  | fuel + 1 => do
    skipSpace flags
    let c ← next
    if c = '\x7d' then return []
    else return c :: (← untilBrace flags fuel)

def fixedHex (flags : Flags) : Nat → ReadM (List Char)
  | 0 => return []
  | n + 1 => do
    skipSpace flags
    let c ← next
    if isHex c then return c :: (← fixedHex flags n) else fail

/-- The character of a hexadecimal escape, and whether it was written with two digits. -/
def hexEscape (flags : Flags) (kind : Char) : ReadM (Char × Bool) := do
  skipSpace flags
  let braced ← accept ['\x7b']
  let digits ←
    if braced then untilBrace flags ((← get).rest.length + 1)
    else fixedHex flags (if kind = 'x' then 2 else if kind = 'u' then 4 else 8)
  if digits.isEmpty || digits.any (!isHex ·) then fail
  else
    match charOfCode? (hexNumber digits) with
    | some c => return (c, !braced && kind = 'x')
    | none => fail

/-- The set with the other cases of its members. -/
def foldCase (flags : Flags) (s : CharSet) : CharSet :=
  if flags.ignoreCase then
    if flags.unicode then s.fold else s.fold.inter (s.union .ascii)
  else s

/-- The class of a `\p` escape. -/
def propertyEscape (flags : Flags) (negated : Bool) : ReadM CharSet := do
  skipSpace flags
  let braced ← accept ['\x7b']
  let text ←
    if braced then untilBrace flags ((← get).rest.length + 1)
    else
      let c ← next
      if c = '\\' then fail else pure [c]
  if !flags.unicode then fail
  else
    match if braced then propertyClass? text else namedClass? text with
    | some set => return if negated then (foldCase flags set).compl else foldCase flags set
    | none => fail

/-- The characters of `\w`, of which `\b` marks the boundaries. -/
def wordSet (flags : Flags) : CharSet :=
  if flags.unicode then wordChars
  else .ofRanges [(0x30, 0x39), (0x41, 0x5A), (0x5F, 0x5F), (0x61, 0x7A)]

/-- The classes of one letter. Without Unicode a complement would cut characters apart, so it is
refused. -/
def letterClass? (flags : Flags) (c : Char) : Option CharSet :=
  let set := match c.toLower with
    | 'd' => if flags.unicode then decimalDigits else .ofRanges [(0x30, 0x39)]
    | 's' => if flags.unicode then blanks else .ofRanges [(0x09, 0x0D), (0x20, 0x20)]
    | _ => wordSet flags
  if c.isUpper then if flags.unicode then some set.compl else none else some set

/-- What a primitive of the pattern stands for. -/
inductive Primitive where
  | literal (c : Char)
  | set (s : CharSet)
  | anchor (a : Anchor)
  | dot

def isMeta (c : Char) : Bool :=
  "\\.+*?()|[]\x7b\x7d^$#&-~".toList.contains c

def specialEscape? : Char → Option Char
  | 'a' => some '\x07'
  | 'f' => some '\x0c'
  | 't' => some '\t'
  | 'n' => some '\n'
  | 'r' => some '\r'
  | 'v' => some '\x0b'
  | _ => none

/-- The kinds of word boundary that a name in braces selects. -/
def boundaryNamed? (w : CharSet) (name : List Char) : Option Anchor :=
  if name = "start".toList then some (.wordStart w)
  else if name = "end".toList then some (.wordEnd w)
  else if name = "start-half".toList then some (.wordStartHalf w)
  else if name = "end-half".toList then some (.wordEndHalf w)
  else none

def isBoundaryChar (c : Char) : Bool := c.isAlpha || c = '-'

/-- After `\b`: a name in braces, or nothing, in which case a brace begins a counted loop. -/
def boundary (flags : Flags) : ReadM Anchor := do
  let w := wordSet flags
  let saved ← get
  if ← accept ['\x7b'] then
    skipSpace flags
    match ← peek? with
    | none => fail
    | some c =>
      if isBoundaryChar c then
        let text ← untilBrace flags ((← get).rest.length + 1)
        match boundaryNamed? w text with
        | some a => return a
        | none => fail
      else
        set saved
        return .wordBoundary w
  else return .wordBoundary w

/-- Reads what follows a backslash. -/
def escape (flags : Flags) : ReadM Primitive := do
  let c ← next
  if c.isDigit then fail
  else if c = 'x' ∨ c = 'u' ∨ c = 'U' then
    let (code, byte) ← hexEscape flags c
    if byte && !flags.unicode && 0x80 ≤ code.toNat then fail else return .literal code
  else if c = 'p' ∨ c = 'P' then return .set (← propertyEscape flags (c = 'P'))
  else if c.toLower = 'd' ∨ c.toLower = 's' ∨ c.toLower = 'w' then
    match letterClass? flags c with
    | some s => return .set s
    | none => fail
  else if isMeta c then return .literal c
  else if c.toNat < 0x80 && !c.isAlphanum && c ≠ '<' && c ≠ '>' then return .literal c
  else
    match specialEscape? c with
    | some c => return .literal c
    | none =>
      match c with
      | 'A' => return .anchor .textStart
      | 'z' => return .anchor .textEnd
      | 'b' => return .anchor (← boundary flags)
      | 'B' => return .anchor (.notWordBoundary (wordSet flags))
      | '<' => return .anchor (.wordStart (wordSet flags))
      | '>' => return .anchor (.wordEnd (wordSet flags))
      | _ => fail

/-- One character or escape inside a class. -/
def classItem (flags : Flags) : ReadM Primitive := do
  let c ← next
  if c = '\\' then escape flags else return .literal c

def literalSet (flags : Flags) (lo hi : Char) : ReadM CharSet :=
  if !flags.unicode && 0x80 ≤ hi.toNat then fail
  else return .ofRanges [(lo.toNat, hi.toNat)]

/-- A character, a range or an escape inside a class. A hyphen before the closing bracket or before
another hyphen is no range. -/
def classRange (flags : Flags) : ReadM CharSet := do
  let first ← classItem flags
  skipSpace flags
  let saved ← get
  let single : ReadM CharSet := do
    match first with
    | .literal c => literalSet flags c c
    | .set s => return s
    | _ => fail
  if ← accept ['-'] then
    skipSpace flags
    match ← peek? with
    | none => fail
    | some c =>
      if c = ']' ∨ c = '-' then
        set saved
        single
      else
        match first, ← classItem flags with
        | .literal lo, .literal hi => if lo ≤ hi then literalSet flags lo hi else fail
        | _, _ => fail
  else single

/-- A class in `[:` and `:]`, if there is one. -/
def asciiClass (flags : Flags) : ReadM (Option CharSet) := do
  let saved ← get
  if ← accept ['[', ':'] then
    let negated ← accept ['^']
    let rest := (← get).rest
    let name := rest.takeWhile (· ≠ ':')
    skip name.length
    let closed ← accept [':', ']']
    match closed, asciiClass? (String.ofList name) with
    | true, some s =>
      let s := foldCase flags s
      if negated then
        if flags.unicode then return some s.compl else fail
      else return some s
    | _, _ =>
      set saved
      return none
  else return none

/-- The operations between the operands of a class. -/
inductive SetOp where
  | inter
  | diff
  | symmDiff

def SetOp.apply : SetOp → CharSet → CharSet → CharSet
  | .inter => CharSet.inter
  | .diff => CharSet.diff
  | .symmDiff => CharSet.symmDiff

def setOp? : ReadM (Option SetOp) := do
  if ← accept ['&', '&'] then return some .inter
  else if ← accept ['-', '-'] then return some .diff
  else if ← accept ['~', '~'] then return some .symmDiff
  else return none

/-- Hyphens at the start of a class are literal. -/
def leadingHyphens (flags : Flags) : Nat → ReadM Bool
  | 0 => return false
  | fuel + 1 => do
    if ← accept ['-'] then
      skipSpace flags
      let _ ← leadingHyphens flags fuel
      return true
    else return false

mutual

/-- Reads a class after its opening bracket; the answer has the class and the depth of its tree.
A closing bracket that comes first is literal. -/
def bracketClass (flags : Flags) : Nat → ReadM (CharSet × Nat)
  | 0 => fail
  | fuel + 1 => do
    skipSpace flags
    let negated ← accept ['^']
    skipSpace flags
    let hyphen ← leadingHyphens flags fuel
    let bracket ← if hyphen then pure false else accept [']']
    let start : CharSet := .ofRanges
      ((if hyphen then [('-'.toNat, '-'.toNat)] else []) ++
        if bracket then [(']'.toNat, ']'.toNat)] else [])
    let (set, depth) ← classBody flags none start 0 fuel
    let set := foldCase flags set
    if negated then
      if flags.unicode then return (set.compl, depth + 1) else fail
    else return (set, depth + 1)

/-- Reads the operands of a class up to its closing bracket. Operations apply from left to right:
`pending` is the one whose right operand is being collected. -/
def classBody (flags : Flags) (pending : Option (SetOp × CharSet)) (operand : CharSet)
    (depth : Nat) : Nat → ReadM (CharSet × Nat)
  | 0 => fail
  | fuel + 1 => do
    skipSpace flags
    let finish : CharSet := match pending with
      | none => operand
      | some (op, left) => op.apply (foldCase flags left) (foldCase flags operand)
    match ← peek? with
    | none => fail
    | some c =>
      if c = '[' then
        match ← asciiClass flags with
        | some s => classBody flags pending (operand.union s) depth fuel
        | none =>
          skip 1
          let (s, inner) ← bracketClass flags fuel
          classBody flags pending (operand.union s) (max depth inner) fuel
      else if c = ']' then
        skip 1
        return (finish, depth)
      else
        match ← setOp? with
        | some op => classBody flags (some (op, finish)) .empty (depth + 1) fuel
        | none =>
          let s ← classRange flags
          classBody flags pending (operand.union s) depth fuel

end

/-- Decimal digits between blanks, worth less than `2 ^ 32`. -/
def decimal (flags : Flags) : ReadM (Option Nat) := do
  modify fun s => { s with rest := s.rest.dropWhile isBlank }
  let rest := (← get).rest
  let digits := rest.takeWhile Char.isDigit
  skip digits.length
  skipSpace flags
  modify fun s => { s with rest := s.rest.dropWhile isBlank }
  skipSpace flags
  if digits.isEmpty then return none
  else
    let n := Number.digitsValue 0 digits
    if n < Number.pow2 32 then return some n else fail

/-- The bounds of a counted loop, after its opening brace. -/
def bounds (flags : Flags) : ReadM (Nat × Option Nat) := do
  skipSpace flags
  let min? ← decimal flags
  match min? with
  | none => fail
  | some min =>
    let max ←
      if ← accept [','] then
        skipSpace flags
        match ← peek? with
        | some '\x7d' => pure none
        | _ =>
          match ← decimal flags with
          | some max => if min ≤ max then pure (some max) else fail
          | none => fail
      else pure (some min)
    if ← accept ['\x7d'] then return (min, max) else fail

/-- Puts a loop around the last part. Greed does not change what matches. -/
def loopLast (parts : List Part) (min : Nat) (max : Option Nat) : ReadM (List Part) :=
  match parts with
  | [] => fail
  | part :: rest =>
    if part.repeatable then
      return { regex := .loop part.regex min max, depth := part.depth + 1 } :: rest
    else fail

def setFlag (flags : Flags) (on : Bool) : Char → Option Flags
  | 'i' => some { flags with ignoreCase := on }
  | 'm' => some { flags with multiLine := on }
  | 's' => some { flags with dotAll := on }
  | 'U' => some { flags with swapGreed := on }
  | 'u' => some { flags with unicode := on }
  | 'R' => some { flags with crlf := on }
  | 'x' => some { flags with verbose := on }
  | _ => none

/-- Reads flags up to a colon or a closing parenthesis. No flag comes twice, and a minus sign, of
which there is at most one, is followed by a flag. The answer also has the closing character and
whether anything was written. -/
def readFlags (flags : Flags) (seen : List Char) : Nat → ReadM (Flags × Char × Bool)
  | 0 => fail
  | fuel + 1 => do
    let c ← next
    if c = ':' ∨ c = ')' then
      if seen.head? = some '-' then fail else return (flags, c, !seen.isEmpty)
    else if seen.contains c then fail
    else if c = '-' then readFlags flags (c :: seen) fuel
    else
      match setFlag flags (!seen.contains '-') c with
      | some flags => readFlags flags (c :: seen) fuel
      | none => fail

def isNameStart (c : Char) : Bool := c = '_' || alphabetic.contains c

def isNameChar (c : Char) : Bool :=
  isNameStart c || c = '.' || c = '[' || c = ']' ||
    (categoriesSet ["Nd", "Nl", "No"]).contains c

/-- Reads a group name and its closing angle bracket. Names are not repeated. -/
def groupName : ReadM Unit := do
  let rest := (← get).rest
  let name := rest.takeWhile (· ≠ '>')
  skip name.length
  if !(← accept ['>']) then fail
  else
    match name with
    | [] => fail
    | first :: others =>
      let text := String.ofList name
      if !isNameStart first || others.any (!isNameChar ·) then fail
      else if (← get).names.contains text then fail
      else modify fun s => { s with names := text :: s.names }

/-- What opens after a parenthesis: a change of flags to the end of the enclosing group, or a group
with flags of its own. -/
inductive Opening where
  | flags (f : Flags)
  | group (f : Flags)

def opening (flags : Flags) : ReadM Opening := do
  skipSpace flags
  let rest := (← get).rest
  if [['?', '='], ['?', '!'], ['?', '<', '='], ['?', '<', '!']].any (·.isPrefixOf rest) then fail
  else if ← accept ['?', 'P', '<'] then
    groupName
    return .group flags
  else if ← accept ['?', '<'] then
    groupName
    return .group flags
  else if ← accept ['?'] then
    let (changed, close, any) ← readFlags flags [] ((← get).rest.length + 1)
    if close = ':' then return .group changed
    else if any then return .flags changed
    else fail
  else return .group flags

/-- The expression of parts read in reverse, and the depth of its tree. -/
def concat : List Part → Part
  | [] => { regex := .empty }
  | [part] => part
  | parts =>
    { regex := sequence (parts.reverse.map Part.regex)
      depth := parts.foldl (fun d p => max d p.depth) 0 + 1 }

def alternate : List Part → Part
  | [] => { regex := .empty }
  | [part] => part
  | first :: rest =>
    { regex := choice first.regex (rest.map Part.regex)
      depth := (first :: rest).foldl (fun d p => max d p.depth) 0 + 1 }

def dotSet (flags : Flags) : CharSet :=
  if flags.dotAll then .all
  else if flags.crlf then (CharSet.ofList ['\n', '\r']).compl
  else (CharSet.single '\n').compl

def primitivePart (flags : Flags) : Primitive → ReadM Part
  | .literal c => return { regex := .char (foldCase flags (.single c)) }
  | .set s => return { regex := .char s }
  | .anchor a => return { regex := .anchor a }
  | .dot => if flags.unicode then return { regex := .char (dotSet flags) } else fail

def caret (flags : Flags) : Anchor :=
  if flags.multiLine then if flags.crlf then .crlfLineStart else .lineStart else .textStart

def dollar (flags : Flags) : Anchor :=
  if flags.multiLine then if flags.crlf then .crlfLineEnd else .lineEnd else .textEnd

/-- Reads the alternatives of a group up to a closing parenthesis or the end. The branches read so
far, and the parts of the branch being read, are in reverse. -/
def alternatives (flags : Flags) (branches : List Part) (parts : List Part) : Nat → ReadM Part
  | 0 => fail
  | fuel + 1 => do
    skipSpace flags
    let finish := alternate ((concat parts :: branches).reverse)
    match ← peek? with
    | none => return finish
    | some ')' => return finish
    | some c =>
      skip 1
      match c with
      | '|' => alternatives flags (concat parts :: branches) [] fuel
      | '(' =>
        match ← opening flags with
        | .flags changed =>
          alternatives changed branches ({ regex := .empty, repeatable := false } :: parts) fuel
        | .group inner =>
          let part ← alternatives inner [] [] fuel
          if ← accept [')'] then
            alternatives flags branches
              ({ part with depth := part.depth + 1, repeatable := true } :: parts) fuel
          else fail
      | '[' =>
        let (set, depth) ← bracketClass flags fuel
        alternatives flags branches ({ regex := .char set, depth } :: parts) fuel
      | '?' | '*' | '+' =>
        let parts ← loopLast parts (if c = '+' then 1 else 0) (if c = '?' then some 1 else none)
        let _ ← accept ['?']
        alternatives flags branches parts fuel
      | '\x7b' =>
        match parts with
        | [] => fail
        | _ =>
          let (min, max) ← bounds flags
          let parts ← loopLast parts min max
          skipSpace flags
          let _ ← accept ['?']
          alternatives flags branches parts fuel
      | '\\' =>
        let part ← primitivePart flags (← escape flags)
        alternatives flags branches (part :: parts) fuel
      | '.' =>
        let part ← primitivePart flags .dot
        alternatives flags branches (part :: parts) fuel
      | '^' => alternatives flags branches ({ regex := .anchor (caret flags) } :: parts) fuel
      | '$' => alternatives flags branches ({ regex := .anchor (dollar flags) } :: parts) fuel
      | c =>
        let part ← primitivePart flags (.literal c)
        alternatives flags branches (part :: parts) fuel

/-- Deepest tree that a pattern may have. -/
def maxNesting : Nat := 250

/-- Largest number of parts that a pattern may have once its loops are written out. This stands for
a bound on memory, and takes no account of how much a set of characters needs. -/
def maxSize : Nat := 250000

/-- Reads a whole pattern. -/
def read? (source : String) : Option Regex :=
  let cs := source.toList
  match (alternatives {} [] [] (2 * cs.length + 2)).run { rest := cs } with
  | some (part, state) =>
    if state.rest.isEmpty && part.depth ≤ maxNesting && part.regex.expandedSize ≤ maxSize then
      some part.regex
    else none
  | none => none

end Sigil.Regex
