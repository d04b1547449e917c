import Sigil.Eval.Registry
import Sigil.Value.Equality

/-!
# Equality and patterns

The operators `is`, `not`, `in` and `regexp`.
-/

namespace Sigil.Operators

/-- A string and a pattern agree if the pattern occurs in the string; other values agree if they are
structurally equal. -/
def agrees (h : Heap) : Value → Value → Bool
  | .string s, .pattern p => p.isMatch s
  | .pattern p, .string s => p.isMatch s
  | a, b => a.structEq h b

def is (sc : Scope) : List Operand → EvalM Value
  | left :: right :: _ => do
    let a ← sc.eval left
    let b ← sc.eval right
    return .bool (agrees (← EvalM.getHeap) a b)
  | _ => EvalM.missingOperand

def not (sc : Scope) : List Operand → EvalM Value
  | left :: right :: _ => do
    let a ← sc.eval left
    let b ← sc.eval right
    return .bool (!a.structEq (← EvalM.getHeap) b)
  | _ => EvalM.missingOperand

/-- A candidate fits a value: a pattern by its text, anything else by equality. -/
def fits (h : Heap) (v : Value) : Value → Bool
  | .pattern p => p.isMatch (v.toText h)
  | candidate => candidate.structEq h v

/-- Evaluates candidates until one fits. -/
def anyFits (sc : Scope) (v : Value) : List Operand → EvalM Bool
  | [] => pure false
  | o :: rest => do
    let candidate ← sc.eval o
    if fits (← EvalM.getHeap) v candidate then return true
    else anyFits sc v rest

/-- `in(value, candidates...)`. -/
def isIn (sc : Scope) : List Operand → EvalM Value
  | [] => EvalM.missingOperand
  | o :: rest => do
    let v ← sc.eval o
    return .bool (← anyFits sc v rest)

/-- `regexp(source)`. -/
def regexp (sc : Scope) : List Operand → EvalM Value
  | [] => EvalM.missingOperand
  | o :: _ => do
    match ← sc.eval o with
    | .string source =>
      match Pattern.read? source with
      | some p => return .pattern p
      | none => EvalM.throw (.badOperand .pattern)
    | v => EvalM.throw (.badOperand (.patternSource (← EvalM.kindOf v)))

def predicates : List Operator := [
  { name := "is", arity := .exactly 2, run := is },
  { name := "not", arity := .exactly 2, run := not },
  { name := "in", arity := .between 1 none, run := isIn },
  { name := "regexp", arity := .exactly 1, run := regexp }]

end Sigil.Operators
