import Sigil.Eval.Scope

/-!
# Paths

A path such as `$.rows[$.cursor].name` names a place: the container that holds the last segment and
the key of that segment. Reading, writing and calling all start from the place. Segments are names
or expressions in brackets, each followed by at most one point. A path is walked as far as it is
well formed, so what stands in its brackets is evaluated even if the end turns out to be malformed.
-/

namespace Sigil

namespace Path

/-- Characters of a name. -/
def isNameChar (c : Char) : Bool := c ≠ '[' && c ≠ ']' && c ≠ ' ' && c ≠ '.'

inductive Segment where
  | name (text : List Char)
  | computed (expr : List Char)
deriving DecidableEq, Repr

def dropPoint : List Char → List Char
  | '.' :: rest => rest
  | text => text

/-- Reads one segment and the point that may follow it. -/
def nextSegment? : List Char → Option (Segment × List Char)
  | '[' :: inner =>
    let expr := inner.takeWhile (· ≠ ']')
    match inner.drop expr.length with
    | [] => none
    | _ :: tail =>
      if expr.isEmpty || expr.contains '[' then none else some (.computed expr, dropPoint tail)
  | text =>
    let name := text.takeWhile isNameChar
    if name.isEmpty then none else some (.name name, dropPoint (text.drop name.length))

/-- The segments of a path, up to the place where it is malformed if there is one. -/
inductive Trail where
  | last (s : Segment)
  | step (s : Segment) (rest : Trail)
  | malformed
deriving DecidableEq, Repr

/-- Reads at most `n` segments. -/
def Trail.read : Nat → List Char → Trail
  | 0, _ => .malformed
  | n + 1, text =>
    match nextSegment? text with
    | none => .malformed
    | some (s, []) => .last s
    | some (s, rest) => .step s (Trail.read n rest)

/-- Every segment has a character, so there are no more segments than characters. -/
def Trail.ofText (text : List Char) : Trail := Trail.read text.length text

/-- Splits the first name off a path, with the point after it; both parts are non-empty. -/
def splitFirst? (text : List Char) : Option (List Char × List Char) :=
  let first := text.takeWhile isNameChar
  let rest := dropPoint (text.drop first.length)
  if first.isEmpty || rest.isEmpty then none else some (first, rest)

end Path

/-- Where a path leads. -/
inductive Location where
  /-- The path is malformed, or something on the way is missing. -/
  | notFound
  /-- A value rather than a place in a container. -/
  | whole (v : Value)
  /-- The place of `key` in `parent`, whether or not there is something. -/
  | slot (key parent : Value)
deriving DecidableEq

/-- What is at a location. -/
def Location.read : Location → EvalM (Option Value)
  | .notFound => pure none
  | .whole v => pure (some v)
  | .slot key parent => EvalM.member? parent key

namespace Scope

open Sigil.Path

/-- A word on its own: the environment, a value bound by the embedder, or the word itself. -/
def word (sc : Scope) (text : List Char) : Value :=
  if text = [sigil] then .map sc.env
  else
    let name := String.ofList text
    (sc.values.get? name).getD (.string name)

/-- The key of a segment. -/
def key (sc : Scope) : Segment → EvalM Value
  | .name text =>
    let name := String.ofList text
    pure ((sc.values.get? name).getD (.string name))
  | .computed expr => sc.evaluate sc.env (.string (String.ofList expr))

/-- Follows segments from a value to the place of the last one. -/
def walk (sc : Scope) : Trail → Value → EvalM Location
  | .malformed, _ => pure .notFound
  | .last s, parent => do
    let key ← sc.key s
    return .slot key parent
  | .step s rest, parent => do
    let key ← sc.key s
    match ← EvalM.member? parent key with
    | some v => if v.isNull then pure .notFound else sc.walk rest v
    | none => pure .notFound

def resolveText (sc : Scope) (text : List Char) : EvalM Location :=
  if text = [sigil] || sc.values.contains (String.ofList text) ||
      !text.any (fun c => c = '.' || c = '[') then
    pure (.whole (sc.word text))
  else
    match splitFirst? text with
    | none => pure .notFound
    | some (first, rest) =>
      let start := sc.word first
      if start.isNull then pure .notFound else sc.walk (.ofText rest) start

/-- Where an operand leads. An operand that is no string is evaluated. -/
def resolve (sc : Scope) (o : Operand) : EvalM Location :=
  match o.text? with
  | some s => sc.resolveText s.toList
  | none => do return .whole (← sc.eval o)

end Scope

end Sigil
