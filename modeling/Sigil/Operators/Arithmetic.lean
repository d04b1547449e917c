import Sigil.Eval.Registry

/-!
# Integer arithmetic and comparison

Operands are coerced to 64-bit integers, and results wrap. All operands are evaluated before the
first one is coerced.
-/

namespace Sigil.Operators

def toInts : List Value → EvalM (List Int64)
  | [] => pure []
  | v :: rest => do
    let n ← EvalM.toInt v
    let ns ← toInts rest
    return n :: ns

def intOperands (sc : Scope) (args : List Operand) : EvalM (List Int64) := do
  toInts (← sc.evalAll args)

def sum (ns : List Int64) : Int64 := ns.foldl (· + ·) 0

def product (ns : List Int64) : Int64 := ns.foldl (· * ·) 1

/-- Applies a division to an integer and each divisor in turn; `none` if a divisor is zero. -/
def divideAll (op : Int64 → Int64 → Int64) : Int64 → List Int64 → Option Int64
  | n, [] => some n
  | n, d :: rest => if d = 0 then none else divideAll op (op n d) rest

def plus (sc : Scope) (args : List Operand) : EvalM Value := do
  return .int (sum (← intOperands sc args))

def multiply (sc : Scope) (args : List Operand) : EvalM Value := do
  return .int (product (← intOperands sc args))

def minus (sc : Scope) (args : List Operand) : EvalM Value := do
  match ← intOperands sc args with
  | [] => EvalM.missingOperand
  | n :: rest => return .int (rest.foldl (· - ·) n)

def dividing (op : Int64 → Int64 → Int64) (sc : Scope) (args : List Operand) : EvalM Value := do
  match ← intOperands sc args with
  | [] => EvalM.missingOperand
  | n :: rest =>
    match divideAll op n rest with
    | some q => return .int q
    | none => EvalM.throw (.typeMismatch .divisionByZero)

def divide : Scope → List Operand → EvalM Value := dividing (· / ·)

def mod : Scope → List Operand → EvalM Value := dividing (· % ·)

/-- `compare(relation, left, right)`. -/
def compare (sc : Scope) : List Operand → EvalM Value
  | relation :: left :: right :: _ => do
    let symbol ← Scope.literal "compare" "operator" relation
    match Relation.ofSymbol? symbol.toList with
    | none => EvalM.throw (.badOperand (.relation symbol))
    | some r =>
      let left ← sc.eval left
      let right ← sc.eval right
      let a ← EvalM.toInt left
      let b ← EvalM.toInt right
      return .bool (r.holds a b)
  | _ => EvalM.missingOperand

def arithmetic : List Operator := [
  { name := "plus", aliases := ["+"], arity := .any, run := plus },
  { name := "minus", aliases := ["-"], arity := .between 1 none, run := minus },
  { name := "multiply", aliases := ["*"], arity := .any, run := multiply },
  { name := "divide", aliases := ["/"], arity := .between 1 none, run := divide },
  { name := "mod", aliases := ["%"], arity := .between 1 none, run := mod },
  { name := "compare", arity := .exactly 3, run := compare }]

end Sigil.Operators
