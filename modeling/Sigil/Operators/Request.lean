import Sigil.Eval.Registry
import Sigil.Json.Reader

/-!
# Requests

The operator `request`, a blocking GET.
-/

namespace Sigil.Operators

/-- Takes the next answer of the network. Status codes from 400 on are failures. -/
def fetch (url : String) : EvalM String := do
  let s ← EvalM.getState
  match s.responses with
  | [] => EvalM.throw (.host (.unreachable url))
  | r :: rest =>
    EvalM.setState { s with responses := rest }
    if 400 ≤ r.status then EvalM.throw (.host (.status url r.status)) else return r.body

/-- The written formats that ask for a document rather than text. -/
def isStructured : Option Operand → Bool
  | some o => o.text? = some "json" || o.text? = some "structured"
  | none => false

/-- `request(method, url, format)`. Any method but `get` gives null. -/
def request (sc : Scope) : List Operand → EvalM Value
  | method :: url :: rest => do
    match method.text? with
    | none => EvalM.throw (.badOperand (.requestMethod method.raw))
    | some name =>
      if name.toLower ≠ "get" then return .null
      else
        match ← sc.eval url with
        | .string url =>
          let body ← fetch url
          if isStructured rest.head? then
            match Json.read? body with
            | some j => EvalM.ofJson j
            | none => EvalM.throw (.host (.bodyNotJson url))
          else return .string body
        | v => EvalM.mismatch v .requestUrl
  | _ => EvalM.missingOperand

def requests : List Operator := [
  { name := "request", aliases := ["fetch"], arity := .between 2 (some 3), run := request }]

end Sigil.Operators
