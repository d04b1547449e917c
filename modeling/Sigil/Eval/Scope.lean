import Sigil.Eval.Monad
import Sigil.Operand

/-!
# Environments, scopes and calls

An environment is a map. It is at once the root of all paths, the scope of function parameters and
iteration variables, and the place of the `exit` flag. A `Scope` is what an operator sees of the
evaluation that it takes part in.
-/

namespace Sigil

namespace Env

/-- Names with a meaning of their own. -/
def item : String := "item"
def index : String := "index"
def this : String := "this"
def exit : String := "exit"
def seq : String := "seq"
def seqArray : String := "seqArray"

/-- A new environment. -/
def create (fields : List (String × Value)) : EvalM MapRef :=
  EvalM.onHeap (·.newMap (.ofList fields))

/-- A new environment with the fields of a document; any document but an object gives an empty
one. -/
def ofJson (j : Json) : EvalM MapRef := do
  match ← EvalM.ofJson j with
  | .map r => return r
  | _ => create []

def get? (env : MapRef) (name : String) : EvalM (Option Value) := do
  return ((← EvalM.getHeap).map env).get? name

def set (env : MapRef) (name : String) (value : Value) : EvalM Unit :=
  EvalM.modifyHeap fun h => h.setMap env ((h.map env).set name value)

def remove (env : MapRef) (name : String) : EvalM Unit :=
  EvalM.modifyHeap fun h => h.setMap env ((h.map env).erase name)

/-- Binds names to values, one after the other. -/
def setAll (env : MapRef) : List (String × Value) → EvalM Unit
  | [] => pure ()
  | (name, value) :: rest => do
    set env name value
    setAll env rest

end Env

/-- What an operator sees of an evaluation. -/
structure Scope where
  env : MapRef
  registry : RegistryRef
  /-- Values that the embedder bound to names. -/
  values : Fields Value
  /-- Functions that the embedder registered, by number. -/
  functions : List (List Value → EvalM Value)
  /-- Evaluates a form under a registry and in an environment. -/
  evaluator : RegistryRef → MapRef → Json → EvalM Value

namespace Scope

/-- Evaluates a form in an environment, under the registry of the scope. -/
def evaluate (sc : Scope) : MapRef → Json → EvalM Value := sc.evaluator sc.registry

/-- Evaluates an operand in the environment of the scope. -/
def eval (sc : Scope) (o : Operand) : EvalM Value := sc.evaluate sc.env o.raw

/-- Evaluates operands from left to right up to the first failure. -/
def evalAll (sc : Scope) : List Operand → EvalM (List Value)
  | [] => pure []
  | o :: rest => do
    let v ← sc.eval o
    let vs ← sc.evalAll rest
    return v :: vs

/-- The text of an operand that has to be written as a string. -/
def literal (operator role : String) (o : Operand) : EvalM String :=
  match o.text? with
  | some s => pure s
  | none => EvalM.throw (.badOperand (.notLiteral operator role o.raw))

/-- Runs the body of a closure under its registry and in its environment, with the parameters bound
as far as there are arguments, then `this`, then the fixed names. Afterwards `exit` and `this` are
removed, whether the body succeeded or not. -/
def callClosure (sc : Scope) (c : Closure) (args : List Value) : EvalM Value := do
  Env.setAll c.env (c.params.zip args)
  Env.set c.env Env.this (.map c.env)
  Env.setAll c.env c.fixed
  let result ← EvalM.attempt (sc.evaluator c.registry c.env c.body)
  Env.remove c.env Env.exit
  Env.remove c.env Env.this
  EvalM.ofExcept result

def callHost (sc : Scope) (f : HostFunction) (args : List Value) : EvalM Value :=
  match f.action with
  | .cancelTimer timer => do
    EvalM.modifyHeap (·.cancel timer)
    return .null
  | .embedded number =>
    match sc.functions[number]? with
    | some run => run args
    | none => pure .null

/-- Calls a closure or a host function. -/
def call (sc : Scope) (f : Value) (args : List Value) : EvalM Value := do
  match f with
  | .closure r => sc.callClosure ((← EvalM.getHeap).closure r) args
  | .host r => sc.callHost ((← EvalM.getHeap).function r) args
  | v => EvalM.mismatch v .notCallable

end Scope

end Sigil
