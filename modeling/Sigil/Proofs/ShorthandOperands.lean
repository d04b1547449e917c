import Sigil.Proofs.ArithmeticShape
import Sigil.Proofs.StepUniformity

/-!
# The operands of shorthand

Comparisons and arithmetic treat their operands alike: both are evaluated, the left one first, then
both are coerced to integers, and the result depends on these alone (`Scope.TakesInts`). The result
of arithmetic is that of the unbounded integers, wrapped at 64 bits.
-/

namespace Sigil

/-- Whether the relation holds between integers. -/
def Relation.test : Relation → Int → Int → Bool
  | .le, a, b => a ≤ b
  | .ge, a, b => b ≤ a
  | .lt, a, b => a < b
  | .gt, a, b => b < a

theorem Relation.holds_eq_test (r : Relation) (a b : Int64) :
    r.holds a b = r.test a.toInt b.toInt := by
  cases r <;> simp [holds, test, Int64.le_iff_toInt_le, Int64.lt_iff_toInt_lt]

namespace Arith

/-- The right operand is a divisor. -/
def divides : Arith → Bool
  | .divide | .mod => true
  | .plus | .minus | .multiply => false

/-- The operation on integers; quotients are truncated. -/
def compute : Arith → Int → Int → Int
  | .plus, a, b => a + b
  | .minus, a, b => a - b
  | .multiply, a, b => a * b
  | .divide, a, b => a.tdiv b
  | .mod, a, b => a.tmod b

/-- What the operation makes of 64-bit integers. -/
def result (op : Arith) (a b : Int64) : Except EvalError Value :=
  if op.divides && b = 0 then .error (.typeMismatch .divisionByZero)
  else .ok (.int (.ofInt (op.compute a.toInt b.toInt)))

end Arith

namespace EvalM

variable {α β γ : Type}

theorem pure_bind (a : α) (f : α → EvalM β) : (Pure.pure a >>= f) = f a := rfl

theorem bind_assoc (m : EvalM α) (f : α → EvalM β) (g : β → EvalM γ) :
    (m >>= f >>= g) = m >>= fun a => f a >>= g := by
  funext s
  change EvalM.bind (EvalM.bind m f) g s = EvalM.bind m (fun a => EvalM.bind (f a) g) s
  cases hm : m s with
  | crashed | tooDeep => simp only [EvalM.bind, Course.bind, hm]
  | ended o =>
    obtain ⟨result, t⟩ := o
    cases result <;> simp only [EvalM.bind, Course.bind, hm]

theorem ofExcept_apply (r : Except EvalError α) (s : State) : ofExcept r s = .ended ⟨r, s⟩ := by
  cases r <;> rfl

theorem toInt_apply (v : Value) (s : State) : EvalM.toInt v s = .ended ⟨v.toInt s.heap, s⟩ :=
  (bind_of_ok rfl).trans (ofExcept_apply _ s)

end EvalM

/-! ## Two operands -/

namespace Scope

variable {sc : Scope} {run : Operand → Operand → EvalM Value}
  {result : Int64 → Int64 → Except EvalError Value}

/-- The operation evaluates both operands, coerces them and makes its result of the integers. -/
def TakesInts (sc : Scope) (run : Operand → Operand → EvalM Value)
    (result : Int64 → Int64 → Except EvalError Value) : Prop :=
  ∀ left right, run left right = do
    let v ← sc.eval left
    let w ← sc.eval right
    let a ← EvalM.toInt v
    let b ← EvalM.toInt w
    EvalM.ofExcept (result a b)

theorem takesInts_of_intOperands {f : List Int64 → EvalM Value}
    (hrun : ∀ left right, run left right = Operators.intOperands sc [left, right] >>= f)
    (hf : ∀ a b, f [a, b] = EvalM.ofExcept (result a b)) : sc.TakesInts run result := by
  intro left right
  simp only [hrun, Operators.intOperands, evalAll, Operators.toInts, EvalM.bind_assoc,
    EvalM.pure_bind, hf]

namespace TakesInts

variable (hrun : sc.TakesInts run result) {left right : Operand} {s t u : State} {v w : Value}
  (hleft : sc.eval left s = .ended ⟨.ok v, t⟩)

include hrun hleft

theorem of_ints (hright : sc.eval right t = .ended ⟨.ok w, u⟩) {a b : Int64}
    (hv : v.toInt u.heap = .ok a) (hw : w.toInt u.heap = .ok b) :
    run left right s = .ended ⟨result a b, u⟩ := by
  have ha : EvalM.toInt v u = .ended ⟨.ok a, u⟩ := by rw [EvalM.toInt_apply, hv]
  have hb : EvalM.toInt w u = .ended ⟨.ok b, u⟩ := by rw [EvalM.toInt_apply, hw]
  rw [hrun, EvalM.bind_of_ok hleft, EvalM.bind_of_ok hright, EvalM.bind_of_ok ha,
    EvalM.bind_of_ok hb, EvalM.ofExcept_apply]

/-- An error of the right operand comes before a mismatch of the left one. -/
theorem of_right_error {e : EvalError} (hright : sc.eval right t = .ended ⟨.error e, u⟩) :
    run left right s = .ended ⟨.error e, u⟩ := by
  rw [hrun, EvalM.bind_of_ok hleft, EvalM.bind_of_error hright]

theorem of_left_mismatch (hright : sc.eval right t = .ended ⟨.ok w, u⟩) {e : EvalError}
    (hv : v.toInt u.heap = .error e) : run left right s = .ended ⟨.error e, u⟩ := by
  have he : EvalM.toInt v u = .ended ⟨.error e, u⟩ := by rw [EvalM.toInt_apply, hv]
  rw [hrun, EvalM.bind_of_ok hleft, EvalM.bind_of_ok hright, EvalM.bind_of_error he]

end TakesInts

end Scope

/-! ## Comparisons and arithmetic -/

/-- The operator that the operation invokes. -/
def Arith.run : Arith → Scope → List Operand → EvalM Value
  | .plus => Operators.plus
  | .minus => Operators.minus
  | .multiply => Operators.multiply
  | .divide => Operators.divide
  | .mod => Operators.mod

theorem Scope.takesInts_dividing (sc : Scope) {op : Arith} (hop : op.divides = true)
    {f : Int64 → Int64 → Int64} (hf : ∀ a b, f a b = .ofInt (op.compute a.toInt b.toInt)) :
    sc.TakesInts (fun left right => Operators.dividing f sc [left, right]) op.result := by
  refine takesInts_of_intOperands (fun left right => rfl) fun a b => ?_
  by_cases hb : b = 0 <;>
    simp [Operators.divideAll, Arith.result, hop, hb, hf, EvalM.ofExcept, pure]

theorem Scope.takesInts_run (sc : Scope) (op : Arith) :
    sc.TakesInts (fun left right => op.run sc [left, right]) op.result := by
  cases op with
  | plus =>
    refine takesInts_of_intOperands (fun left right => rfl) fun a b => ?_
    have hsum : Operators.sum [a, b] = .ofInt (a.toInt + b.toInt) := by
      simp [Operators.sum, Int64.ofInt_add]
    rw [hsum]
    rfl
  | minus =>
    refine takesInts_of_intOperands (fun left right => rfl) fun a b => ?_
    have hdifference : [b].foldl (· - ·) a = .ofInt (a.toInt - b.toInt) := by
      simp [Int64.ofInt_sub]
    dsimp only
    rw [hdifference]
    rfl
  | multiply =>
    refine takesInts_of_intOperands (fun left right => rfl) fun a b => ?_
    have hproduct : Operators.product [a, b] = .ofInt (a.toInt * b.toInt) := by
      simp [Operators.product, Int64.ofInt_mul]
    rw [hproduct]
    rfl
  | divide =>
    refine sc.takesInts_dividing rfl fun a b => ?_
    rw [eq_comm, Int64.ofInt_eq_iff_bmod_eq_toInt]
    exact (Int64.toInt_div a b).symm
  | mod =>
    refine sc.takesInts_dividing rfl fun a b => ?_
    rw [← Int64.ofInt_toInt (a % b), Int64.toInt_mod]
    rfl

/-- `compare` evaluates and coerces its operands in the same order. -/
theorem Scope.takesInts_compare (sc : Scope) (r : Relation) :
    sc.TakesInts (fun left right => Operators.compare sc [.ofText r.symbol, left, right])
      fun a b => .ok (.bool (r.test a.toInt b.toInt)) := by
  intro left right
  have hsymbol : Scope.literal "compare" "operator" (.ofText r.symbol) =
      pure (String.ofList r.symbol) := by cases r <;> rfl
  have hrelation : Relation.ofSymbol? r.symbol = some r := by cases r <;> rfl
  simp only [Operators.compare, hsymbol, EvalM.pure_bind, String.toList_ofList, hrelation,
    ← r.holds_eq_test]
  rfl

namespace Registry

variable {reg : Registry} (hreg : reg.HasBuiltin) (ev : Registry → Evaluator) (env : MapRef)

include hreg

theorem evalText_of_comparison? {text : List Char} {b : Shorthand.Binary Relation}
    (hb : Shorthand.comparison? text = some b) :
    reg.evalText ev env text = Operators.compare (reg.scope ev env)
      [.ofText b.op.symbol, .ofText b.left, .ofText b.right] := by
  have hroot : text ≠ [sigil] := by
    rintro rfl
    cases hb
  have hcompare := hreg "compare" _ rfl
  rw [evalText, if_neg hroot, hb]
  simp only [invoke, hcompare]
  rfl

theorem evalText_of_arithmetic? {text : List Char} {b : Shorthand.Binary Arith}
    (hnone : Shorthand.comparison? text = none) (hb : Shorthand.arithmetic? text = some b) :
    reg.evalText ev env text = b.op.run (reg.scope ev env) [.ofText b.left, .ofText b.right] := by
  have hroot : text ≠ [sigil] := by
    rintro rfl
    cases hb
  rw [evalText, if_neg hroot, hnone]
  dsimp only
  rw [hb]
  obtain ⟨op, left, right⟩ := b
  cases op with
  | plus => simp only [Arith.operatorName, invoke, hreg "plus" _ rfl]; rfl
  | minus => simp only [Arith.operatorName, invoke, hreg "minus" _ rfl]; rfl
  | multiply => simp only [Arith.operatorName, invoke, hreg "multiply" _ rfl]; rfl
  | divide => simp only [Arith.operatorName, invoke, hreg "divide" _ rfl]; rfl
  | mod => simp only [Arith.operatorName, invoke, hreg "mod" _ rfl]; rfl

end Registry

end Sigil
