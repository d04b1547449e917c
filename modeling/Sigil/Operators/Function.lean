import Sigil.Eval.Registry

/-!
# Making functions

The operator `function`.
-/

namespace Sigil.Operators

def strings? : List Json → Option (List String)
  | [] => some []
  | .string s :: rest => (strings? rest).map (s :: ·)
  | _ => none

/-- A written list of names: one string, or an array of strings. -/
def names? : Json → Option (List String)
  | .string s => some [s]
  | .array items => strings? items
  | _ => none

def names (role : String) (o : Operand) : EvalM (List String) :=
  match names? o.raw with
  | some ns => pure ns
  | none => EvalM.throw (.badOperand (.names role o.raw))

/-- Reads names from the environment as paths. -/
def captureAll (sc : Scope) : List String → EvalM (List (String × Value))
  | [] => pure []
  | name :: rest => do
    let v ← sc.evaluate sc.env (.string ("$." ++ name))
    let vs ← captureAll sc rest
    return (name, v) :: vs

/-- The fixed names of a function with their values, if a list of them is written. -/
def captureFixed (sc : Scope) : List Operand → EvalM (List (String × Value))
  | o :: _ => do captureAll sc (← names "fixed list" o)
  | [] => pure []

/-- `function(params, body, fixed)`: a closure over the environment. The fixed names keep the values
that they have now. -/
def function (sc : Scope) : List Operand → EvalM Value
  | params :: body :: rest => do
    let params ← names "parameter list" params
    let fixed ← captureFixed sc rest
    let c : Closure := { params, body := body.raw, fixed, env := sc.env, registry := sc.registry }
    let r ← EvalM.onHeap (·.newClosure c)
    return .closure r
  | _ => EvalM.missingOperand

def functions : List Operator := [
  { name := "function", arity := .between 2 (some 3), run := function }]

end Sigil.Operators
