/-!
# Places in a YAML text

Layout carries meaning in YAML, so a text is read with lines and columns in view. Line breaks of all
spellings are made one newline beforehand; only the line and paragraph separators keep their own
character.
-/

namespace Sigil.Yaml

/-- Characters that a text may hold: no control characters but tab and the line breaks. -/
def isPrintable (c : Char) : Bool :=
  let n := c.toNat
  n == 0x09 || n == 0x0A || n == 0x0D || (0x20 ≤ n && n ≤ 0x7E) || n == 0x85 ||
    (0xA0 ≤ n && n ≤ 0xFFFD) || 0x10000 ≤ n

/-- Writes carriage return, with or without a newline after it, and next line as newline. -/
def unifyBreaks : List Char → List Char
  | '\r' :: '\n' :: rest => '\n' :: unifyBreaks rest
  | '\r' :: rest => '\n' :: unifyBreaks rest
  | '\u0085' :: rest => '\n' :: unifyBreaks rest
  | c :: rest => c :: unifyBreaks rest
  | [] => []

def isBreak (c : Char) : Bool := c = '\n' || c = '\u2028' || c = '\u2029'

def isSpace (c : Char) : Bool := c = ' ' || c = '\t'

/-- Spaces and line breaks separate words. -/
def isGap (c : Char) : Bool := isSpace c || isBreak c

/-- A word ends here: at a gap or at the end of the text. -/
def endsWord : List Char → Bool
  | [] => true
  | c :: _ => isGap c

/-- A line ends here. -/
def endsLine : List Char → Bool
  | [] => true
  | c :: _ => isBreak c

/-- Characters of anchors, of tag handles and of directive names. -/
def isWordChar (c : Char) : Bool := c.isAlphanum || c = '_' || c = '-'

/-- The text that is left, and where it begins. -/
structure Cursor where
  rest : List Char
  index : Nat := 0
  line : Nat := 0
  column : Nat := 0

namespace Cursor

/-- Moves past one character. -/
def advance (cur : Cursor) : Cursor :=
  match cur.rest with
  | [] => cur
  | c :: rest =>
    if isBreak c then { rest, index := cur.index + 1, line := cur.line + 1, column := 0 }
    else { rest, index := cur.index + 1, line := cur.line, column := cur.column + 1 }

/-- Moves past `n` characters. -/
def drop (cur : Cursor) : Nat → Cursor
  | 0 => cur
  | n + 1 => cur.advance.drop n

/-- Moves past the characters that satisfy a test. -/
def dropWhile (p : Char → Bool) (cur : Cursor) : Cursor := cur.drop (cur.rest.takeWhile p).length

/-- Moves past a comment, if one begins here. -/
def dropComment (cur : Cursor) : Cursor :=
  if cur.rest.head? = some '#' then cur.dropWhile (!isBreak ·) else cur

/-- A line of three marks, or of three marks and more text after a gap, begins here. -/
def atMarks (mark : Char) (cur : Cursor) : Bool :=
  cur.column = 0 && cur.rest.take 3 = [mark, mark, mark] && endsWord (cur.rest.drop 3)

/-- A document begins or ends here. -/
def atDocumentBoundary (cur : Cursor) : Bool := cur.atMarks '-' || cur.atMarks '.'

end Cursor

end Sigil.Yaml
