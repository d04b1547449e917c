import Sigil.Eval.Registry

/-!
# Sizes and order

The operators `len` and `reverse`.
-/

namespace Sigil.Operators

/-- `len(value)`: elements of a list, fields of a map or characters of a string. -/
def len (sc : Scope) : List Operand → EvalM Value
  | [] => EvalM.missingOperand
  | o :: _ => do
    let v ← sc.eval o
    let h ← EvalM.getHeap
    let size (n : Nat) : EvalM Value := return .int (Int64.ofNat n)
    match v with
    | .list r => size (h.list r).length
    | .map r => size (h.map r).size
    | .string s => size s.toList.length
    | v => EvalM.mismatch v .noLength

/-- `reverse(list)`: a reversed copy. -/
def reverse (sc : Scope) : List Operand → EvalM Value
  | [] => EvalM.missingOperand
  | o :: _ => do
    match ← sc.eval o with
    | .list r => EvalM.newList ((← EvalM.getHeap).list r).reverse
    | v => EvalM.mismatch v .notReversible

def containers : List Operator := [
  { name := "len", arity := .exactly 1, run := len },
  { name := "reverse", arity := .exactly 1, run := reverse }]

end Sigil.Operators
