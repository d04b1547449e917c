import Sigil.Eval.Registry

/-!
# Time

The operators `timer` and `now`. A timer evaluates its body when it is made, and from then on
whenever its period has passed.
-/

namespace Sigil.Operators

/-- A number of seconds in whole nanoseconds, a half going to the even neighbour; `none` from
`2 ^ 64` seconds on. -/
def nanoseconds? (seconds : Float) : Option Nat :=
  match Number.Parts.ofFloat seconds with
  | .finite _ m e =>
    let num := m * Number.pow2 e.toNat
    let den := Number.pow2 (-e).toNat
    if num < Number.pow2 64 * den then some (Number.roundHalfEven (num * Number.pow10 9) den)
    else none
  | _ => none

/-- The shortest period, in nanoseconds. -/
def minPeriod : Nat := 1000000

/-- The period that a value stands for. -/
def period (h : Heap) (v : Value) : Except EvalError Nat :=
  let seconds? : Option Float := match v with
    | .int n => if 0 < n.toInt then some (Number.ofInt n.toInt) else none
    | .float x => if 0 < x then some x else none
    | _ => none
  match seconds? with
  | none => .error (.badOperand (.period (v.display h)))
  | some seconds =>
    match nanoseconds? seconds with
    | none => .error (.badOperand (.periodRange seconds))
    | some nanos =>
      if nanos < minPeriod then .error (.badOperand (.periodShort seconds)) else .ok nanos

/-- `timer(seconds, body)`. -/
def timer (sc : Scope) : List Operand → EvalM Value
  | seconds :: body :: _ => do
    let v ← sc.eval seconds
    let period ← EvalM.ofExcept (period (← EvalM.getHeap) v)
    let _ ← sc.eval body
    let t : Timer := { period, body := body.raw, env := sc.env, registry := sc.registry }
    let r ← EvalM.onHeap (·.newNative (.timer t))
    return .native r
  | _ => EvalM.missingOperand

/-- `now()`: the time in milliseconds. -/
def now (_ : Scope) (_ : List Operand) : EvalM Value := do
  return .int (← EvalM.getState).clock

def schedule : List Operator := [
  { name := "timer", arity := .exactly 2, run := timer },
  { name := "now", arity := .any, run := now }]

end Sigil.Operators
