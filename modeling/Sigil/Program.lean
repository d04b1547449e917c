import Sigil.Operators.Builtin

/-!
# Running programs

The entry points: run a form in an environment or in a new one, apply an operator, call a function,
follow a path, and let a timer tick. They share one bound on the depth of evaluation, which is far
beyond what a program that ends can reach.
-/

namespace Sigil

namespace Registry

/-- Bound on the depth of evaluation. -/
def maxDepth : Nat := 1000000000

/-- Evaluates a form in an environment. -/
def run (reg : Registry) (env : MapRef) (form : Json) : EvalM Value :=
  reg.evaluate maxDepth env form

/-- Evaluates a form in an environment of its own. -/
def runFresh (reg : Registry) (form : Json) : EvalM Value := do reg.run (← Env.create []) form

/-- Applies an operator to unevaluated operands. -/
def apply (reg : Registry) (env : MapRef) (name : String) (args : List Operand) : EvalM Value :=
  reg.invoke run env name args

/-- Calls a closure or a host function. -/
def call (reg : Registry) (env : MapRef) (f : Value) (args : List Value) : EvalM Value :=
  (reg.scope run env).call f args

/-- Where an operand leads. -/
def resolve (reg : Registry) (env : MapRef) (o : Operand) : EvalM Location :=
  (reg.scope run env).resolve o

/-- Lets a timer tick once unless it is cancelled. An error of the body is dropped, and the tick
counts in any case. If the body crashes, so does the thread of the timer. -/
def tick (reg : Registry) (r : NativeRef) : EvalM Unit := do
  match (← EvalM.getHeap).native r with
  | .timer t =>
    if t.cancelled then return ()
    else
      let _ ← EvalM.attempt ((reg.select t.registry).run t.env t.body)
      EvalM.modifyHeap (·.countTick r)
  | _ => return ()

/-- Lets a timer tick `n` times, or until it is cancelled. -/
def ticks (reg : Registry) (r : NativeRef) : Nat → EvalM Unit
  | 0 => pure ()
  | n + 1 => do
    reg.tick r
    reg.ticks r n

end Registry

end Sigil
