import Sigil.Eval.Registry
import Sigil.Yaml.Document

/-!
# YAML inside programs

The operators `parseYaml` and `runYaml`.
-/

namespace Sigil.Operators

/-- Evaluates an operand to YAML text and reads it. -/
def yamlOperand (sc : Scope) (operator : String) (o : Operand) : EvalM Json := do
  match ← sc.eval o with
  | .string text =>
    match Yaml.read? text with
    | some j => return j
    | none => EvalM.throw (.host .yaml)
  | v => EvalM.mismatch v (.yamlText operator)

/-- `parseYaml(text)`. -/
def parseYaml (sc : Scope) : List Operand → EvalM Value
  | [] => EvalM.missingOperand
  | o :: _ => do EvalM.ofJson (← yamlOperand sc "parseYaml" o)

/-- `runYaml(text)`: runs a program in an environment of its own and on its own thread. -/
def runYaml (sc : Scope) : List Operand → EvalM Value
  | [] => EvalM.missingOperand
  | o :: _ => do
    let form ← yamlOperand sc "runYaml" o
    let env ← Env.create []
    EvalM.detach (sc.evaluate env form)
    return .null

def yaml : List Operator := [
  { name := "parseYaml", arity := .exactly 1, run := parseYaml },
  { name := "runYaml", arity := .exactly 1, run := runYaml }]

end Sigil.Operators
