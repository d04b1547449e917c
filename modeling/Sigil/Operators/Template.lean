import Sigil.Eval.Registry

/-!
# Text from values

The operators `format` and `print`.
-/

namespace Sigil.Operators

/-- Puts texts in the place of the marks `%s`, in order. Marks without a text stay, texts without a
mark are dropped, and what was put in is not looked at again. -/
def fill : List Char → List (List Char) → List Char
  | [], _ => []
  | '%' :: 's' :: rest, text :: texts => text ++ fill rest texts
  | '%' :: 's' :: rest, [] => '%' :: 's' :: fill rest []
  | c :: rest, texts => c :: fill rest texts

def formatTemplate (h : Heap) (template : String) (values : List Value) : String :=
  String.ofList (fill template.toList (values.map fun v => (v.toText h).toList))

/-- `format(template, values...)`. -/
def format (sc : Scope) : List Operand → EvalM Value
  | [] => EvalM.missingOperand
  | template :: rest => do
    let template ← Scope.literal "format" "template" template
    let values ← sc.evalAll rest
    return .string (formatTemplate (← EvalM.getHeap) template values)

/-- `print(values...)`: one line with the values' texts. -/
def print (sc : Scope) (args : List Operand) : EvalM Value := do
  let values ← sc.evalAll args
  let h ← EvalM.getHeap
  let line := " ".intercalate (values.map (Value.toText h))
  EvalM.modifyState fun s => { s with printed := s.printed ++ line ++ "\n" }
  return .null

def templates : List Operator := [
  { name := "format", arity := .between 1 none, run := format },
  { name := "print", arity := .any, run := print }]

end Sigil.Operators
