import Sigil.Eval.Registry

/-!
# Control flow

The operators `sequence`, `exit` and `when`.
-/

namespace Sigil.Operators

/-- The list in `seqArray`, which is put there if there is none. -/
def slots (env : MapRef) : EvalM ListRef := do
  match ← Env.get? env Env.seqArray with
  | some (.list r) => return r
  | _ =>
    let r ← EvalM.onHeap (·.newList [])
    Env.set env Env.seqArray (.list r)
    return r

def slotCount (env : MapRef) : EvalM Nat := do
  let r ← slots env
  return ((← EvalM.getHeap).list r).length

/-- Writes at a position, filling up with null before it. -/
def writeSlot (xs : List Value) (i : Nat) (v : Value) : List Value :=
  (xs ++ List.replicate (i + 1 - xs.length) Value.null).set i v

/-- Keeps a result that is not null as the result so far of the sequence whose slot is `start`. -/
def record (env : MapRef) (start : Nat) (v : Value) : EvalM Unit := do
  if v.isNull then return ()
  else
    Env.set env Env.seq v
    let r ← slots env
    EvalM.modifyHeap fun h => h.setList r (writeSlot (h.list r) start v)

def exitRequested (env : MapRef) : EvalM Bool := do
  match ← Env.get? env Env.exit with
  | some (.bool true) => return true
  | _ => return false

/-- Evaluates forms in order until one fails or leaves `exit` true. -/
def runForms (sc : Scope) (start : Nat) : List Operand → EvalM Unit
  | [] => pure ()
  | o :: rest => do
    let v ← sc.eval o
    record sc.env start v
    if ← exitRequested sc.env then return ()
    else runForms sc start rest

/-- `sequence(forms...)`: evaluates the forms in order. Every level of nesting owns the slot of
`seqArray` that is free when it starts, and gives it back at the end. -/
def sequence (sc : Scope) (forms : List Operand) : EvalM Value := do
  let start ← slotCount sc.env
  let outcome ← EvalM.attempt (runForms sc start forms)
  let r ← slots sc.env
  EvalM.modifyHeap fun h => h.setList r ((h.list r).take start)
  EvalM.ofExcept outcome
  return (← Env.get? sc.env Env.seq).getD .null

/-- `exit()`: asks the running sequences to stop. -/
def exit (sc : Scope) (_ : List Operand) : EvalM Value := do
  Env.set sc.env Env.exit (.bool true)
  return .null

/-- Takes the branch after the first true condition; `total` is the number of conditions. -/
def firstTrue (sc : Scope) (total : Nat) : List Operand → EvalM Value
  | [] => EvalM.throw (.noMatch total)
  | [condition] => do
    match ← sc.eval condition with
    | .bool true => return .null
    | .bool false => EvalM.throw (.noMatch total)
    | v => EvalM.mismatch v (.condition condition.raw)
  | condition :: branch :: rest => do
    match ← sc.eval condition with
    | .bool true => sc.eval branch
    | .bool false => firstTrue sc total rest
    | v => EvalM.mismatch v (.condition condition.raw)

/-- `when(condition, branch, ...)`. -/
def when_ (sc : Scope) (args : List Operand) : EvalM Value :=
  firstTrue sc ((args.length + 1) / 2) args

def control : List Operator := [
  { name := "sequence", arity := .any, run := sequence },
  { name := "exit", arity := .any, run := exit },
  { name := "when", arity := .any, run := when_ }]

end Sigil.Operators
