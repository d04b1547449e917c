import Sigil.Toml.Scalar

/-!
# Reading TOML documents
-/

namespace Sigil.Toml

/-! ## Keys -/

def isBareChar (c : Char) : Bool := c.isAlphanum || c = '_' || c = '-'

/-- Reads a key without points. -/
def simpleKey? (cs : List Char) : Option (String × List Char) :=
  match cs with
  | [] => none
  | c :: _ =>
    if c = '"' || c = '\'' then (line? cs).map fun (text, rest) => (String.ofList text, rest)
    else
      let name := cs.takeWhile isBareChar
      if name.isEmpty then none else some (String.ofList name, cs.drop name.length)

/-- Reads a key of at most `n` names with points between them, and the spaces around each name. -/
def readKey? : Nat → List Char → Option ((String × List String) × List Char)
  | 0, _ => none
  | n + 1, cs => do
    let (name, rest) ← simpleKey? (cs.dropWhile isSpace)
    match rest.dropWhile isSpace with
    | '.' :: rest =>
      let ((next, more), rest) ← readKey? n rest
      return ((name, next :: more), rest)
    | rest => return ((name, []), rest)

/-- Bound on the names of a key and on the nesting of arrays and inline tables. -/
def maxDepth : Nat := 79

def key? (cs : List Char) : Option ((String × List String) × List Char) := readKey? maxDepth cs

/-! ## Values -/

mutual

/-- Reads a value with at most `depth` levels of arrays and inline tables. -/
def value? : Nat → Nat → List Char → Option (Toml × List Char)
  | 0, _, _ => none
  | n + 1, depth, '[' :: rest =>
    match depth with
    | 0 => none
    | depth + 1 => (items? n depth rest).map fun (items, rest) => (.array items, rest)
  | n + 1, depth, '\x7b' :: rest =>
    match depth with
    | 0 => none
    | depth + 1 =>
      match rest.dropWhile isSpace with
      | '\x7d' :: rest => some (.table .inline [], rest)
      | rest => (pairs? n depth [] rest).map fun (fields, rest) => (.table .inline fields, rest)
  | _ + 1, _, cs => scalar? cs

/-- Reads items up to the closing bracket; a comma may follow the last one. -/
def items? : Nat → Nat → List Char → Option (List Toml × List Char)
  | 0, _, _ => none
  | n + 1, depth, cs =>
    match dropGap cs.length cs with
    | ']' :: rest => some ([], rest)
    | cs => do
      let (item, rest) ← value? n depth cs
      match dropGap rest.length rest with
      | ',' :: rest =>
        let (items, rest) ← items? n depth rest
        return (item :: items, rest)
      | ']' :: rest => return ([item], rest)
      | _ => none

/-- Reads one or more pairs on a line up to the closing brace. -/
def pairs? : Nat → Nat → Table → List Char → Option (Table × List Char)
  | 0, _, _, _ => none
  | n + 1, depth, seen, cs => do
    let ((name, more), rest) ← key? cs
    match rest with
    | '=' :: rest =>
      let (v, rest) ← value? n depth (rest.dropWhile isSpace)
      let seen ← Table.add? v name more seen
      match rest.dropWhile isSpace with
      | ',' :: rest => pairs? n depth seen rest
      | '\x7d' :: rest => return (seen, rest)
      | _ => none
    | _ => none

end

/-! ## Documents -/

/-- A line of a document. -/
inductive Statement where
  | blank
  | header (path : List String) (name : String)
  | row (path : List String) (name : String)
  | pair (name : String) (more : List String) (value : Toml)

/-- Splits the last name off a key. -/
def splitLast (name : String) : List String → List String × String
  | [] => ([], name)
  | next :: more =>
    let (path, last) := splitLast next more
    (name :: path, last)

/-- Reads a statement, which may take several lines, without what follows it on its last line. -/
def statement? (cs : List Char) : Option (Statement × List Char) :=
  match cs with
  | [] => some (.blank, [])
  | '#' :: _ => some (.blank, cs)
  | '\n' :: _ => some (.blank, cs)
  | '\r' :: _ => some (.blank, cs)
  | '[' :: '[' :: rest => do
    let ((name, more), rest) ← key? rest
    match rest with
    | ']' :: ']' :: rest =>
      let (path, last) := splitLast name more
      return (.row path last, rest)
    | _ => none
  | '[' :: rest => do
    let ((name, more), rest) ← key? rest
    match rest with
    | ']' :: rest =>
      let (path, last) := splitLast name more
      return (.header path last, rest)
    | _ => none
  | _ => do
    let ((name, more), rest) ← key? cs
    match rest with
    | '=' :: rest =>
      let (v, rest) ← value? (2 * cs.length + 2) maxDepth (rest.dropWhile isSpace)
      return (.pair name more v, rest)
    | _ => none

/-- A document so far: the whole, and the path of the table that pairs go to. -/
structure Draft where
  root : Table := []
  current : List String := []

def Draft.add? (d : Draft) : Statement → Option Draft
  | .blank => some d
  | .header path name =>
    (Table.modify? (Table.open? name) path d.root).map fun root =>
      { root, current := path ++ [name] }
  | .row path name =>
    (Table.modify? (Table.openRow? name) path d.root).map fun root =>
      { root, current := path ++ [name] }
  | .pair name more v =>
    (Table.modify? (Table.add? v name more) d.current d.root).map fun root => { d with root }

/-- Reads at most `n` statements. -/
def readStatements? : Nat → Draft → List Char → Option Table
  | 0, _, _ => none
  | n + 1, d, cs =>
    match cs.dropWhile isSpace with
    | [] => some d.root
    | cs => do
      let (s, rest) ← statement? cs
      let d ← d.add? s
      readStatements? n d (← endLine? rest)

/-- Reads a TOML text. -/
def read? (text : String) : Option Table :=
  let cs := match text.toList with
    | '\uFEFF' :: rest => rest
    | cs => cs
  readStatements? (cs.length + 1) {} cs

end Sigil.Toml
