/-!
# Expressions inside strings

A string such as `$.count >= 3` is a comparison and one such as `$.total * 2` is arithmetic. The
shapes are narrow, so that ordinary text stays text:

* a comparison is `left OP right` with any number of spaces around `OP`; both operands start with
  `-`, `$`, `~` or a digit, the left one has no space and is as short as possible, and the right one
  has no line break;
* arithmetic is `left OP right` with one or more spaces on each side of `OP`, a left operand without
  spaces, and no bracket anywhere.
-/

namespace Sigil

/-- The order relations that a program can test. -/
inductive Relation where
  | le
  | ge
  | lt
  | gt
deriving DecidableEq, Repr

namespace Relation

def symbol : Relation → List Char
  | .le => ['<', '=']
  | .ge => ['>', '=']
  | .lt => ['<']
  | .gt => ['>']

/-- All relations, the longer symbols first. -/
def all : List Relation := [.le, .ge, .lt, .gt]

def ofSymbol? (s : List Char) : Option Relation := all.find? (·.symbol = s)

def holds : Relation → Int64 → Int64 → Bool
  | .le, a, b => a ≤ b
  | .ge, a, b => b ≤ a
  | .lt, a, b => a < b
  | .gt, a, b => b < a

end Relation

inductive Arith where
  | plus
  | minus
  | multiply
  | divide
  | mod
deriving DecidableEq, Repr

namespace Arith

def ofChar? : Char → Option Arith
  | '+' => some .plus
  | '-' => some .minus
  | '*' => some .multiply
  | '/' => some .divide
  | '%' => some .mod
  | _ => none

/-- The operator that the shorthand invokes. -/
def operatorName : Arith → String
  | .plus => "plus"
  | .minus => "minus"
  | .multiply => "multiply"
  | .divide => "divide"
  | .mod => "mod"

end Arith

namespace Shorthand

/-- Two operands around an operation. -/
structure Binary (op : Type) where
  op : op
  left : List Char
  right : List Char
deriving DecidableEq, Repr

def isOperandStart (c : Char) : Bool := c = '-' || c = '$' || c = '~' || c.isDigit

def dropSpaces (cs : List Char) : List Char := cs.dropWhile (· = ' ')

/-- What may stand to the right of a relation. -/
def isRightOperand (cs : List Char) : Bool :=
  cs.head?.any isOperandStart && !cs.contains '\n'

/-- Reads the relation at the start of a text, after spaces, and the operand after it. -/
def relationAndRight? (cs : List Char) : Option (Relation × List Char) :=
  let cs := dropSpaces cs
  Relation.all.findSome? fun r =>
    if r.symbol.isPrefixOf cs then
      let right := dropSpaces (cs.drop r.symbol.length)
      if isRightOperand right then some (r, right) else none
    else none

/-- Extends the left operand one character at a time until the rest reads as a relation and an
operand. A space ends the search. -/
def splitRelation? : List Char → Option (Binary Relation)
  | [] => none
  | c :: cs =>
    match relationAndRight? (c :: cs) with
    | some (r, right) => some ⟨r, [], right⟩
    | none =>
      if c = ' ' then none
      else (splitRelation? cs).map fun b => { b with left := c :: b.left }

def comparison? : List Char → Option (Binary Relation)
  | [] => none
  | c :: cs =>
    if isOperandStart c then
      (splitRelation? cs).map fun b => { b with left := c :: b.left }
    else none

/-- The right operand after the spaces that follow the operation, of which there is at least one. If
nothing but spaces is left, the last of at least two is the operand. -/
def arithmeticRight? (after : List Char) : Option (List Char) :=
  if after.head? = some ' ' then
    match dropSpaces after with
    | [] => if after.length < 2 then none else some [' ']
    | right => some right
  else none

def arithmetic? (cs : List Char) : Option (Binary Arith) :=
  if cs.any fun c => c = '[' || c = ']' then none
  else
    let left := cs.takeWhile (· ≠ ' ')
    match left, dropSpaces (cs.drop left.length) with
    | _ :: _, c :: after =>
      (Arith.ofChar? c).bind fun op =>
        (arithmeticRight? after).map fun right => ⟨op, left, right⟩
    | _, _ => none

end Shorthand

end Sigil
