import Sigil.Eval.Registry
import Sigil.Value.Equality

/-!
# Iteration

The operators `forEach`, `filter`, `map` and `toUnique`. The current element and its position are
bound in the environment itself, so a body sees and may overwrite the caller's variables of the same
names. The elements are those that the source has when the iteration starts.
-/

namespace Sigil.Operators

/-- Binds the current element and its position. -/
def bindItem (env : MapRef) (var : String) (i : Nat) (x : Value) : EvalM Unit := do
  Env.set env var x
  Env.set env Env.index (.int (Int64.ofNat i))

def unbindItem (env : MapRef) (var : String) : EvalM Unit := do
  Env.remove env var
  Env.remove env Env.index

/-- Evaluates a body for each element from position `i` on and collects what `keep` makes of the
element and the result. -/
def iterate (sc : Scope) (var : String) (body : Operand)
    (keep : Value → Value → EvalM (List Value)) : Nat → List Value → EvalM (List Value)
  | _, [] => pure []
  | i, x :: rest => do
    bindItem sc.env var i x
    let result ← sc.eval body
    let kept ← keep x result
    let more ← iterate sc var body keep (i + 1) rest
    return kept ++ more

/-- The variable of an iteration, which may be written after its body. -/
def itemVariable (name : String) : List Operand → EvalM String
  | o :: _ => Scope.literal name "item variable" o
  | [] => pure Env.item

/-- Removes the variables of an iteration that had elements. -/
def unbindAfter (env : MapRef) (var : String) (items : List Value) : EvalM Unit :=
  if items.isEmpty then pure () else unbindItem env var

/-- The common part of the iterations `(source, body, variable)`. -/
def iteration (name : String) (keep : Operand → Value → Value → EvalM (List Value))
    (finish : List Value → EvalM Value) (sc : Scope) : List Operand → EvalM Value
  | source :: body :: rest => do
    let var ← itemVariable name rest
    let v ← sc.eval source
    let items := v.toElements (← EvalM.getHeap)
    let kept ← iterate sc var body (keep body) 0 items
    unbindAfter sc.env var items
    finish kept
  | _ => EvalM.missingOperand

def forEach : Scope → List Operand → EvalM Value :=
  iteration "forEach" (fun _ _ _ => pure []) fun _ => pure .null

def map : Scope → List Operand → EvalM Value :=
  iteration "map" (fun _ _ result => pure [result]) EvalM.newList

/-- Keeps an element whose test gave true. -/
def keepIf (test : Operand) (x result : Value) : EvalM (List Value) :=
  match result with
  | .bool true => pure [x]
  | .bool false => pure []
  | v => EvalM.mismatch v (.predicate test.raw)

def filter : Scope → List Operand → EvalM Value :=
  iteration "filter" keepIf EvalM.newList

/-- Admits an identity key to the window of a kind. -/
def admitKey (kind : String) (capacity : Nat) (key : String) : EvalM Bool := do
  let s ← EvalM.getState
  let (admitted, windows) := s.windows.accept kind capacity key
  EvalM.setState { s with windows }
  return admitted

def uniqueKind : Value → EvalM String
  | .string s => pure s
  | v => do EvalM.throw (.badOperand (.uniqueKind (← EvalM.kindOf v)))

/-- A capacity is a positive integer. -/
def uniqueCapacity (v : Value) : EvalM Nat :=
  let complain : EvalM Nat := do
    EvalM.throw (.badOperand (.uniqueCapacity (v.display (← EvalM.getHeap))))
  match v with
  | .int n => if 0 < n.toInt then pure n.toInt.toNat else complain
  | _ => complain

def uniqueSource : Value → EvalM (List Value)
  | .list r => do return (← EvalM.getHeap).list r
  | v => EvalM.mismatch v .uniqueSource

/-- Starts the window of a kind, or crashes if its memory cannot be reserved. -/
def startWindow (kind : String) (capacity : Nat) : EvalM Unit := fun s =>
  match s.windows.start? kind capacity with
  | some windows => .ended ⟨.ok (), { s with windows }⟩
  | none => .crashed s

/-- Keeps an element whose key the window of the kind admits. -/
def keepNew (kind : String) (capacity : Nat) (x result : Value) : EvalM (List Value) := do
  let key := result.identityKey (← EvalM.getHeap)
  return if ← admitKey kind capacity key then [x] else []

/-- `toUnique(kind, key, capacity, source)`: the elements whose key the window of the kind admits
as new. -/
def toUnique (sc : Scope) : List Operand → EvalM Value
  | kind :: key :: capacity :: source :: _ => do
    let kind ← uniqueKind (← sc.eval kind)
    let capacity ← uniqueCapacity (← sc.eval capacity)
    let items ← uniqueSource (← sc.eval source)
    startWindow kind capacity
    let outcome ← EvalM.attempt (iterate sc Env.item key (keepNew kind capacity) 0 items)
    unbindItem sc.env Env.item
    EvalM.newList (← EvalM.ofExcept outcome)
  | _ => EvalM.missingOperand

def iterations : List Operator := [
  { name := "forEach", arity := .between 2 (some 3), run := forEach },
  { name := "filter", arity := .between 2 (some 3), run := filter },
  { name := "map", arity := .between 2 (some 3), run := map },
  { name := "toUnique", arity := .exactly 4, run := toUnique }]

end Sigil.Operators
