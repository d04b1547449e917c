import Sigil.Eval.Registry

/-!
# Access to the document store

The operators `mongoGet`, `mongoInsert` and `mongoReplace`. Documents are copied on the way in and
on the way out.
-/

namespace Sigil.Operators

/-- The name of a collection, as written. -/
def collection (operator : String) (o : Operand) : EvalM String :=
  match o.text? with
  | some name => pure name
  | none => EvalM.throw (.badOperand (.collection operator o.raw))

/-- Evaluates an operand to a document. -/
def document (sc : Scope) (operator : String) (o : Operand) : EvalM Document := do
  let v ← sc.eval o
  match v.toJson (← EvalM.getHeap) with
  | .object fields => return fields
  | j => EvalM.throw (.typeMismatch (.document operator j))

/-- Runs a step on the store, which has to be reachable. -/
def onStore {α : Type} (f : Store → Except HostFault α × Store) : EvalM α := do
  let s ← EvalM.getState
  match s.store with
  | none => EvalM.throw (.host .storeOffline)
  | some store =>
    let (result, store) := f store
    EvalM.setState { s with store := some store }
    match result with
    | .ok a => return a
    | .error fault => EvalM.throw (.host fault)

/-- `mongoGet(collection)`: all documents. -/
def storedDocuments (_ : Scope) : List Operand → EvalM Value
  | [] => EvalM.missingOperand
  | o :: _ => do
    let name ← collection "mongoGet" o
    let docs ← onStore fun s => (.ok (s.find name), s)
    EvalM.ofJson (.array (docs.map .object))

/-- `mongoInsert(collection, document)`. -/
def insertDocument (sc : Scope) : List Operand → EvalM Value
  | o :: form :: _ => do
    let name ← collection "mongoInsert" o
    let doc ← document sc "mongoInsert" form
    let id ← onStore (·.insert name doc)
    let r ← EvalM.onHeap (·.newNative (.insertResult id))
    return .native r
  | _ => EvalM.missingOperand

/-- `mongoReplace(collection, document)`. -/
def replaceDocument (sc : Scope) : List Operand → EvalM Value
  | o :: form :: _ => do
    let name ← collection "mongoReplace" o
    let doc ← document sc "mongoReplace" form
    let matched ← onStore fun s =>
      let (matched, s) := s.replace name doc
      (.ok matched, s)
    let r ← EvalM.onHeap (·.newNative (.replaceResult matched))
    return .native r
  | _ => EvalM.missingOperand

def documents : List Operator := [
  { name := "mongoGet", arity := .exactly 1, run := storedDocuments },
  { name := "mongoInsert", arity := .exactly 2, run := insertDocument },
  { name := "mongoReplace", arity := .exactly 2, run := replaceDocument }]

end Sigil.Operators
