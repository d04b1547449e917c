import Sigil.Eval.Registry

/-!
# Reading, writing and calling through paths

The operators `get`, `set` and `do`.
-/

namespace Sigil.Operators

/-- Takes the default off the end of the operands after a path: a last operand that is a string. -/
def splitDefault : List Operand → List Operand × Option Operand
  | [] => ([], none)
  | [o] => if o.text?.isSome then ([], some o) else ([o], none)
  | o :: rest =>
    let (keys, default?) := splitDefault rest
    (o :: keys, default?)

/-- Follows evaluated keys from a value; a missing member is null. -/
def follow (sc : Scope) : List Operand → Value → EvalM Value
  | [], v => pure v
  | o :: rest, v => do
    let key ← sc.eval o
    let next ← EvalM.member? v key
    follow sc rest (next.getD .null)

/-- The default of a reading operator, which is null if it is not written. -/
def evalDefault (sc : Scope) : Option Operand → EvalM Value
  | some o => sc.eval o
  | none => pure .null

/-- `get(path, keys..., default)`: what is at the path and the keys after it. Null and a path that
leads nowhere give the default, which is null if it is not written. -/
def get (sc : Scope) : List Operand → EvalM Value
  | [] => EvalM.missingOperand
  | path :: rest => do
    let (keys, default?) := splitDefault rest
    let fallback ← evalDefault sc default?
    match ← sc.resolve path with
    | .notFound => return fallback
    | location =>
      let start ← location.read
      let v ← follow sc keys (start.getD .null)
      return if v.isNull then fallback else v

/-- Writes to a place. What is no place, and an empty key, stay as they are. -/
def writeAt (value : Value) : Location → EvalM Unit
  | .slot key parent =>
    if key.string? = some "" || parent.isNull then pure () else EvalM.assign parent key value
  | _ => pure ()

/-- `set(path, value)`: writes to the place of the path. A path that leads to no place changes
nothing. -/
def set (sc : Scope) : List Operand → EvalM Value
  | path :: form :: _ => do
    let value ← sc.eval form
    writeAt value (← sc.resolve path)
    return .null
  | _ => EvalM.missingOperand

/-- Follows members from a value until it can be called, and calls it with the operands left over.
Nothing to call gives null. -/
def callMember (sc : Scope) : List Operand → Value → EvalM Value
  | [], v => if v.isCallable then sc.call v [] else pure .null
  | o :: rest, v => do
    if v.isCallable then
      let args ← sc.evalAll (o :: rest)
      sc.call v args
    else
      let key ← sc.eval o
      match ← EvalM.member? v key with
      | some next => callMember sc rest next
      | none => pure .null

/-- `do(path, members..., args...)`. -/
def invoke (sc : Scope) : List Operand → EvalM Value
  | [] => EvalM.missingOperand
  | path :: rest => do
    match ← sc.resolve path with
    | .notFound => return .null
    | location =>
      let start ← location.read
      callMember sc rest (start.getD .null)

def data : List Operator := [
  { name := "get", arity := .between 1 none, run := get },
  { name := "set", arity := .exactly 2, run := set },
  { name := "do", arity := .between 1 none, run := invoke }]

end Sigil.Operators
