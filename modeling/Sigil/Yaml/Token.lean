import Sigil.Yaml.Scalar

/-!
# Tokens

What a YAML text is made of. The beginning and end of block collections, which a text shows only by
its layout, are tokens too. Here are also the small tokens whose inner form does not depend on
layout: anchors, tags and directives.
-/

namespace Sigil.Yaml

inductive Token where
  | version (major minor : Nat)
  | tagPrefix (handle uri : List Char)
  | documentStart
  | documentEnd
  | blockSequenceStart
  | blockMappingStart
  | blockEnd
  | flowSequenceStart
  | flowSequenceEnd
  | flowMappingStart
  | flowMappingEnd
  | blockEntry
  | flowEntry
  | key
  | value
  | alias (name : List Char)
  | anchor (name : List Char)
  | tag (handle suffix : List Char)
  | scalar (text : List Char) (plain : Bool)
deriving DecidableEq, Repr

namespace Token

/-! ## Anchors and aliases -/

/-- Characters that may touch the end of an anchor. -/
def endsAnchor : List Char → Bool
  | [] => true
  | c :: _ => isGap c || ['?', ':', ',', ']', '\x7d', '%', '@', '\x60'].contains c

/-- Reads the name after `&` or `*`. -/
def anchorName? (cur : Cursor) : Option (List Char × Cursor) :=
  let name := cur.rest.takeWhile isWordChar
  let after := cur.drop name.length
  if name.isEmpty || !endsAnchor after.rest then none else some (name, after)

/-! ## Tags -/

def isUriChar (verbatim : Bool) (c : Char) : Bool :=
  isWordChar c || [';', '/', '?', ':', '@', '&', '=', '+', '$', '.', '!', '~', '*', '\'', '(',
    ')'].contains c || (verbatim && [',', '[', ']'].contains c)

/-- How many octets of a character follow its first octet. -/
def octetsAfter? (octet : Nat) : Option Nat :=
  if octet < 0x80 then some 0
  else if octet < 0xC0 then none
  else if octet < 0xE0 then some 1
  else if octet < 0xF0 then some 2
  else if octet < 0xF8 then some 3
  else none

/-- The longest URI at the beginning of a text and its length there, with `pending` octets still to
come. An octet written with `%` is one character of the result. -/
def uri? (verbatim : Bool) : Nat → List Char → Option (List Char × Nat)
  | pending, '%' :: a :: b :: rest => do
    let octet ← hexNat? [a, b]
    let pending ← match pending with
      | 0 => octetsAfter? octet
      | n + 1 => if 0x80 ≤ octet && octet < 0xC0 then some n else none
    let (uri, length) ← uri? verbatim pending rest
    return (Char.ofNat octet :: uri, length + 3)
  | 0, [] => some ([], 0)
  | 0, c :: rest =>
    if c = '%' then none
    else if isUriChar verbatim c then
      (uri? verbatim 0 rest).map fun (uri, length) => (c :: uri, length + 1)
    else some ([], 0)
  | _ + 1, _ => none

/-- Reads a URI with at least one character. -/
def nonemptyUri? (verbatim : Bool) (cur : Cursor) : Option (List Char × Cursor) := do
  let (uri, length) ← uri? verbatim 0 cur.rest
  if uri.isEmpty then none else some (uri, cur.drop length)

/-- Handle and suffix of a tag. A tag without a handle of its own has the handle `!`; the lone `!`
and verbatim tags have none. -/
def tagParts? (cur : Cursor) : Option (List Char × List Char × Cursor) :=
  match cur.rest with
  | '!' :: '<' :: _ => do
    let (uri, cur) ← nonemptyUri? true (cur.drop 2)
    if cur.rest.head? = some '>' then some ([], uri, cur.advance) else none
  | '!' :: rest => do
    let word := rest.takeWhile isWordChar
    let after := cur.drop (word.length + 1)
    if after.rest.head? = some '!' then
      let (suffix, cur) ← nonemptyUri? false after.advance
      return ('!' :: word ++ ['!'], suffix, cur)
    else
      let (uri, length) ← uri? false 0 after.rest
      let suffix := word ++ uri
      let cur := after.drop length
      return if suffix.isEmpty then ([], ['!'], cur) else (['!'], suffix, cur)
  | _ => none

/-- Reads a tag at its `!`. A gap follows it or, inside a flow collection, a comma. -/
def tag? (flow : Bool) (cur : Cursor) : Option (Token × Cursor) := do
  let (handle, suffix, cur) ← tagParts? cur
  if endsWord cur.rest || (flow && cur.rest.head? = some ',') then some (.tag handle suffix, cur)
  else none

/-! ## Directives -/

/-- Most digits of a version number. -/
def maxVersionDigits : Nat := 9

def versionNumber? (cur : Cursor) : Option (Nat × Cursor) :=
  let digits := cur.rest.takeWhile Char.isDigit
  if digits.isEmpty || maxVersionDigits < digits.length then none
  else some (Number.digitsValue 0 digits, cur.drop digits.length)

def version? (cur : Cursor) : Option (Token × Cursor) := do
  let (major, cur) ← versionNumber? cur
  if cur.rest.head? ≠ some '.' then none
  else
    let (minor, cur) ← versionNumber? cur.advance
    return (.version major minor, cur)

/-- Reads a tag handle, which ends in `!`. -/
def handle? (cur : Cursor) : Option (List Char × Cursor) :=
  match cur.rest with
  | '!' :: rest =>
    let word := rest.takeWhile isWordChar
    let after := cur.drop (word.length + 1)
    if after.rest.head? = some '!' then some ('!' :: word ++ ['!'], after.advance)
    else if word.isEmpty then some (['!'], after)
    else none
  | _ => none

def tagPrefix? (cur : Cursor) : Option (Token × Cursor) := do
  let (handle, cur) ← handle? cur
  if !cur.rest.head?.any isSpace then none
  else
    let (uri, cur) ← nonemptyUri? true (cur.dropWhile isSpace)
    if endsWord cur.rest then some (.tagPrefix handle uri, cur) else none

/-- Reads a directive at its `%` and the line that it stands on. -/
def directive? (cur : Cursor) : Option (Token × Cursor) := do
  let name := cur.advance.rest.takeWhile isWordChar
  let cur := cur.drop (name.length + 1)
  if !endsWord cur.rest then none
  else
    let cur := cur.dropWhile isSpace
    let (token, cur) ←
      if name = "YAML".toList then version? cur
      else if name = "TAG".toList then tagPrefix? cur
      else none
    let cur := (cur.dropWhile isSpace).dropComment
    if endsLine cur.rest then some (token, cur.advance) else none

end Token

end Sigil.Yaml
