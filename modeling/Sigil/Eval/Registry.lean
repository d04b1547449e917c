import Sigil.Eval.Path
import Sigil.Shorthand

/-!
# Operators and evaluation

A program is a JSON document. Strings are paths, shorthand expressions, host values or text; an
object with one field that names an operator invokes it; an object with one field that is a path
writes there; everything else is data whose parts are evaluated.

A process may have several registries. Functions and timers remember the one under which they were
made and run their bodies under it, whoever calls them.

One step of evaluation is written against an arbitrary evaluator for the parts. `Registry.evaluate`
ties the knot down to a given depth.
-/

namespace Sigil

structure Operator where
  name : String
  aliases : List String := []
  arity : Arity
  run : Scope → List Operand → EvalM Value

/-- The operator answers to a name. -/
def Operator.isNamed (op : Operator) (name : String) : Bool :=
  op.name == name || op.aliases.contains name

/-- Evaluates a form in an environment. -/
abbrev Evaluator := MapRef → Json → EvalM Value

/-- What the operators and names of one registry mean. -/
structure Bindings where
  /-- The operators, the last one registered first. -/
  operators : List Operator := []
  values : Fields Value := .empty

namespace Bindings

/-- Adds an operator, which wins over earlier ones of the same name. -/
def register (b : Bindings) (op : Operator) : Bindings :=
  { b with operators := op :: b.operators }

def registerAll (b : Bindings) (ops : List Operator) : Bindings :=
  ops.foldl register b

def bindValue (b : Bindings) (name : String) (value : Value) : Bindings :=
  { b with values := b.values.set name value }

end Bindings

/-- A registry among those of a process. -/
structure Registry where
  /-- What the registries of the process mean. -/
  bindings : RegistryRef → Bindings
  /-- The registry at hand. -/
  self : RegistryRef := ⟨0⟩
  /-- Functions of the embedder, which belong to no registry. -/
  functions : List (List Value → EvalM Value) := []

namespace Registry

/-- The registry of a process that has only one. -/
def only (b : Bindings) : Registry := { bindings := fun _ => b }

/-- Another registry of the process. -/
def select (reg : Registry) (r : RegistryRef) : Registry := { reg with self := r }

def operators (reg : Registry) : List Operator := (reg.bindings reg.self).operators

def values (reg : Registry) : Fields Value := (reg.bindings reg.self).values

def operator? (reg : Registry) (name : String) : Option Operator :=
  reg.operators.find? (·.isNamed name)

/-- The scope of operators under the registry, with `ev` for the parts. -/
def scope (reg : Registry) (ev : Registry → Evaluator) (env : MapRef) : Scope :=
  { env, registry := reg.self, values := reg.values, functions := reg.functions,
    evaluator := fun r => ev (reg.select r) }

/-- Invokes an operator with unevaluated operands. -/
def invoke (reg : Registry) (ev : Registry → Evaluator) (env : MapRef) (name : String)
    (args : List Operand) : EvalM Value :=
  match reg.operator? name with
  | none => EvalM.throw (.unknownOperator name)
  | some op => do
    EvalM.ofExcept (op.arity.check op.name args.length)
    op.run (reg.scope ev env) args

def evalText (reg : Registry) (ev : Registry → Evaluator) (env : MapRef) (text : List Char) :
    EvalM Value :=
  if text = [sigil] then pure (.map env)
  else match Shorthand.comparison? text with
    | some b =>
      reg.invoke ev env "compare" [.ofText b.op.symbol, .ofText b.left, .ofText b.right]
    | none =>
      match Shorthand.arithmetic? text with
      | some b => reg.invoke ev env b.op.operatorName [.ofText b.left, .ofText b.right]
      | none =>
        if text.head? = some sigil then reg.invoke ev env "get" [.ofText text]
        else pure ((reg.values.get? (String.ofList text)).getD (.string (String.ofList text)))

def evalItems (ev : Json → EvalM Value) : List Json → EvalM (List Value)
  | [] => pure []
  | j :: rest => do
    let v ← ev j
    let vs ← evalItems ev rest
    return v :: vs

def evalFields (ev : Json → EvalM Value) : List (String × Json) → EvalM (List (String × Value))
  | [] => pure []
  | (k, j) :: rest => do
    let v ← ev j
    let vs ← evalFields ev rest
    return (k, v) :: vs

/-- The operands written after an operator: the items of an array, or a single form. -/
def operandsOf : Json → List Operand
  | .array items => items.map .ofForm
  | form => [.ofForm form]

/-- What an object does. -/
inductive ObjectRole where
  | invocation (operator : String) (args : List Operand)
  | data

/-- An object with a single field invokes the operator of that name, or writes to the path. -/
def objectRole (reg : Registry) : List (String × Json) → ObjectRole
  | [(key, operand)] =>
    if (reg.operator? key).isSome then .invocation key (operandsOf operand)
    else if key.toList.head? = some sigil then
      .invocation "set" [.ofForm (.string key), .ofForm operand]
    else .data
  | _ => .data

/-- One step of evaluation, with `ev` for the parts. -/
def step (reg : Registry) (ev : Registry → Evaluator) : Evaluator
  | env, .string s => reg.evalText ev env s.toList
  | env, .array items => do EvalM.newList (← evalItems (ev reg env) items)
  | env, .object fields =>
    match reg.objectRole fields with
    | .invocation name args => reg.invoke ev env name args
    | .data => do EvalM.newMap (← evalFields (ev reg env) fields)
  | _, form => EvalM.ofJson form

/-- Evaluates a form, going at most `depth` steps deep. -/
def evaluate (reg : Registry) : Nat → Evaluator
  | 0, _, _ => EvalM.outOfDepth
  | depth + 1, env, form => reg.step (fun reg => evaluate reg depth) env form

end Registry

end Sigil
