import Mathlib.Algebra.BigOperators.Group.List.Basic
import Mathlib.Data.Int.ModEq
import Mathlib.Data.List.Perm.Basic
import Sigil.Proofs.PlainData
import Sigil.Proofs.ShorthandOperands

/-!
# Arithmetic on any number of operands

The arithmetic operators evaluate all their operands from left to right, coerce the values to
integers from left to right, and make their result of the integers alone (`Arith.outcome`). So the
first operand that fails ends the evaluation, while a value that is no integer is complained about
only after every operand had its effect.

Sums, products and differences wrap at every step of a fold, and still are what exact arithmetic
gives modulo 2^64 (`evaluate_totals`): the order of the operands shows only in their effects.
-/

namespace Sigil

/-! ## Operands one after the other -/

namespace Scope

/-- Evaluated one after the other from the first state to the second, the operands have the
values. -/
inductive Evaluates (sc : Scope) : List Operand → State → List Value → State → Prop where
  | nil {s : State} : Evaluates sc [] s [] s
  | cons {o : Operand} {rest : List Operand} {s t u : State} {v : Value} {vs : List Value} :
      sc.eval o s = .ended ⟨.ok v, t⟩ → Evaluates sc rest t vs u →
      Evaluates sc (o :: rest) s (v :: vs) u

namespace Evaluates

variable {sc : Scope} {args before : List Operand} {s t u : State} {vs : List Value}

theorem evalAll_eq (hargs : sc.Evaluates args s vs t) : sc.evalAll args s = .ended ⟨.ok vs, t⟩ := by
  induction hargs with
  | nil => rfl
  | cons ho _ ih =>
    rw [evalAll, EvalM.bind_of_ok ho, EvalM.bind_of_ok ih]
    rfl

theorem length_eq (hargs : sc.Evaluates args s vs t) : args.length = vs.length := by
  induction hargs with
  | nil => rfl
  | cons _ _ ih => simp [ih]

/-- What stands behind an operand that fails is not evaluated. -/
theorem evalAll_of_error (hbefore : sc.Evaluates before s vs t) {bad : Operand} {e : EvalError}
    (hbad : sc.eval bad t = .ended ⟨.error e, u⟩) (after : List Operand) :
    sc.evalAll (before ++ bad :: after) s = .ended ⟨.error e, u⟩ := by
  induction hbefore with
  | nil => exact EvalM.bind_of_error hbad
  | cons ho _ ih =>
    rw [List.cons_append, evalAll, EvalM.bind_of_ok ho, EvalM.bind_of_error (ih hbad)]

end Evaluates

end Scope

/-- The values coerce to the integers. -/
def Value.Ints (h : Heap) : List Value → List Int64 → Prop :=
  List.Forall₂ fun v n => v.toInt h = .ok n

namespace Value.Ints

variable {s : State} {vs good : List Value} {ns : List Int64}

theorem toInts_eq (hints : Ints s.heap vs ns) : Operators.toInts vs s = .ended ⟨.ok ns, s⟩ := by
  induction hints with
  | nil => rfl
  | @cons v n _ _ hv _ ih =>
    have hn : EvalM.toInt v s = .ended ⟨.ok n, s⟩ := by rw [EvalM.toInt_apply, hv]
    rw [Operators.toInts, EvalM.bind_of_ok hn, EvalM.bind_of_ok ih]
    rfl

/-- The first value that is no integer decides. -/
theorem toInts_of_error (hgood : Ints s.heap good ns) {bad : Value} {e : EvalError}
    (hbad : bad.toInt s.heap = .error e) (rest : List Value) :
    Operators.toInts (good ++ bad :: rest) s = .ended ⟨.error e, s⟩ := by
  induction hgood with
  | nil =>
    have he : EvalM.toInt bad s = .ended ⟨.error e, s⟩ := by rw [EvalM.toInt_apply, hbad]
    exact EvalM.bind_of_error he
  | @cons v n _ _ hv _ ih =>
    have hn : EvalM.toInt v s = .ended ⟨.ok n, s⟩ := by rw [EvalM.toInt_apply, hv]
    rw [List.cons_append, Operators.toInts, EvalM.bind_of_ok hn, EvalM.bind_of_error ih]

end Value.Ints

/-! ## The operators -/

namespace Arith

/-- The names under which the operation is invoked. -/
def names (op : Arith) : List String := [op.operatorName, String.singleton op.symbol]

/-- How many operands the operation needs. -/
def least : Arith → Nat
  | .plus | .multiply => 0
  | .minus | .divide | .mod => 1

/-- What the operation makes of a dividend and its divisors. -/
def quotient (f : Int64 → Int64 → Int64) (n : Int64) (ds : List Int64) : Except EvalError Value :=
  match Operators.divideAll f n ds with
  | some q => .ok (.int q)
  | none => .error (.typeMismatch .divisionByZero)

/-- What the operation makes of its operands. -/
def outcome : Arith → List Int64 → Except EvalError Value
  | .plus, ns => .ok (.int (Operators.sum ns))
  | .multiply, ns => .ok (.int (Operators.product ns))
  | .minus, n :: ns => .ok (.int (ns.foldl (· - ·) n))
  | .divide, n :: ds => quotient (· / ·) n ds
  | .mod, n :: ds => quotient (· % ·) n ds
  | _, [] => .error (.badOperand .missing)

theorem run_eq (op : Arith) (sc : Scope) (args : List Operand) :
    op.run sc args =
      Operators.intOperands sc args >>= fun ns => EvalM.ofExcept (op.outcome ns) := by
  have hdividing (f : Int64 → Int64 → Int64) (n : Int64) (ds : List Int64) :
      (match Operators.divideAll f n ds with
        | some q => pure (.int q)
        | none => EvalM.throw (.typeMismatch .divisionByZero) : EvalM Value) =
      EvalM.ofExcept (quotient f n ds) := by
    unfold quotient
    cases Operators.divideAll f n ds <;> rfl
  cases op with
  | plus => rfl
  | multiply => rfl
  | minus =>
    refine congrArg (Operators.intOperands sc args >>= ·) (funext fun ns => ?_)
    cases ns <;> rfl
  | divide =>
    refine congrArg (Operators.intOperands sc args >>= ·) (funext fun ns => ?_)
    cases ns with
    | nil => rfl
    | cons n ds => exact hdividing _ n ds
  | mod =>
    refine congrArg (Operators.intOperands sc args >>= ·) (funext fun ns => ?_)
    cases ns with
    | nil => rfl
    | cons n ds => exact hdividing _ n ds

section Run

variable (op : Arith) {sc : Scope} {args before : List Operand} {s t u : State}
  {vs good : List Value} {ns : List Int64} {e : EvalError}

theorem run_of_ints (hargs : sc.Evaluates args s vs t) (hints : Value.Ints t.heap vs ns) :
    op.run sc args s = .ended ⟨op.outcome ns, t⟩ := by
  have hoperands : Operators.intOperands sc args s = .ended ⟨.ok ns, t⟩ :=
    (EvalM.bind_of_ok hargs.evalAll_eq).trans hints.toInts_eq
  rw [run_eq, EvalM.bind_of_ok hoperands, EvalM.ofExcept_apply]

theorem run_of_error (hbefore : sc.Evaluates before s vs t) {bad : Operand}
    (hbad : sc.eval bad t = .ended ⟨.error e, u⟩) (after : List Operand) :
    op.run sc (before ++ bad :: after) s = .ended ⟨.error e, u⟩ := by
  have hoperands : Operators.intOperands sc (before ++ bad :: after) s = .ended ⟨.error e, u⟩ :=
    EvalM.bind_of_error (hbefore.evalAll_of_error hbad after)
  rw [run_eq, EvalM.bind_of_error hoperands]

theorem run_of_mismatch {bad : Value} {rest : List Value}
    (hargs : sc.Evaluates args s (good ++ bad :: rest) t) (hgood : Value.Ints t.heap good ns)
    (hbad : bad.toInt t.heap = .error e) : op.run sc args s = .ended ⟨.error e, t⟩ := by
  have hoperands : Operators.intOperands sc args s = .ended ⟨.error e, t⟩ :=
    (EvalM.bind_of_ok hargs.evalAll_eq).trans (hgood.toInts_of_error hbad rest)
  rw [run_eq, EvalM.bind_of_error hoperands]

end Run

end Arith

theorem Registry.evaluate_arith {reg : Registry} (hreg : reg.HasBuiltin) {op : Arith} {key : String}
    (hkey : key ∈ op.names) {operand : Json} (hlength : op.least ≤ (operandsOf operand).length)
    (depth : Nat) (env : MapRef) :
    reg.evaluate (depth + 1) env (.object [(key, operand)]) =
      op.run (reg.scope (·.evaluate depth) env) (operandsOf operand) := by
  obtain ⟨o, ho, hrun, harity⟩ : ∃ o, builtin.operator? key = some o ∧ o.run = op.run ∧
      (o.arity = .any ∨ o.arity = .between 1 none ∧ op.least = 1) := by
    simp only [Arith.names, List.mem_cons, List.not_mem_nil, or_false] at hkey
    cases op <;> rcases hkey with rfl | rfl <;> exact ⟨_, rfl, rfl, by simp [Arith.least]⟩
  rw [← hrun]
  refine evaluate_invocation (hreg key o ho) ?_ depth env
  rcases harity with hany | ⟨hbetween, hleast⟩
  · rw [hany]
    rfl
  · rw [hbetween, Arity.check, if_neg (by omega)]

/-- If the operands give integers, the result is made of these. -/
theorem Registry.evaluate_arith_of_ints {reg : Registry} (hreg : reg.HasBuiltin) {op : Arith}
    {key : String} (hkey : key ∈ op.names) {depth : Nat} {env : MapRef} {operand : Json}
    {s t : State} {vs : List Value} {ns : List Int64}
    (hargs : (reg.scope (·.evaluate depth) env).Evaluates (operandsOf operand) s vs t)
    (hints : Value.Ints t.heap vs ns) (hlength : op.least ≤ ns.length) :
    reg.evaluate (depth + 1) env (.object [(key, operand)]) s = .ended ⟨op.outcome ns, t⟩ := by
  rw [← hints.length_eq, ← hargs.length_eq] at hlength
  rw [evaluate_arith hreg hkey hlength]
  exact op.run_of_ints hargs hints

/-! ## Wrapping folds -/

/-- Of the integers of 64 bits, just one is congruent to a given integer. -/
theorem toInt_modEq_iff (k : Int64) (m : Int) : k.toInt ≡ m [ZMOD 2 ^ 64] ↔ k = .ofInt m := by
  rw [eq_comm (a := k), Int64.ofInt_eq_iff_bmod_eq_toInt]
  constructor
  · intro hmod
    have hbmod : k.toInt.bmod (2 ^ 64) = m.bmod (2 ^ 64) := by
      rw [← Int.emod_bmod k.toInt, ← Int.emod_bmod m]
      exact congrArg (Int.bmod · (2 ^ 64)) hmod
    exact hbmod.symm.trans (Int64.toInt_bmod k)
  · intro hbmod
    rw [← hbmod]
    exact Int.bmod_emod

/-- Wrapping at every step of a fold is wrapping once at its end. -/
theorem foldl_ofInt {f : Int64 → Int64 → Int64} {g : Int → Int → Int}
    (hfg : ∀ x n, f (.ofInt x) n = .ofInt (g x n.toInt)) (ns : List Int64) (x : Int) :
    ns.foldl f (.ofInt x) = .ofInt ((ns.map Int64.toInt).foldl g x) := by
  induction ns generalizing x with
  | nil => rfl
  | cons n ns ih => rw [List.foldl_cons, hfg, ih, List.map_cons, List.foldl_cons]

theorem foldl_sub_eq (ns : List Int) (x : Int) : ns.foldl (· - ·) x = x - ns.sum := by
  induction ns generalizing x with
  | nil => simp
  | cons n ns ih =>
    rw [List.foldl_cons, ih, List.sum_cons]
    omega

namespace Arith

/-- The exact sum, product or difference of integers. -/
def total? : Arith → List Int → Option Int
  | .plus, ns => some ns.sum
  | .multiply, ns => some ns.prod
  | .minus, n :: ns => some (n - ns.sum)
  | _, _ => none

theorem least_le_of_total? {op : Arith} {ns : List Int} {m : Int} (hm : op.total? ns = some m) :
    op.least ≤ ns.length := by
  cases op with
  | plus | multiply => exact Nat.zero_le _
  | minus =>
    cases ns with
    | nil => cases hm
    | cons => simp [least]
  | divide | mod => cases hm

/-- The fold wraps the exact result. -/
theorem outcome_of_total? {op : Arith} {ns : List Int64} {m : Int}
    (hm : op.total? (ns.map Int64.toInt) = some m) : op.outcome ns = .ok (.int (.ofInt m)) := by
  cases op with
  | plus =>
    have hsum := foldl_ofInt (f := (· + ·)) (g := (· + ·)) (by simp [Int64.ofInt_add]) ns 0
    rw [← List.sum_eq_foldl, Option.some.inj hm] at hsum
    exact congrArg (fun n => Except.ok (Value.int n)) hsum
  | multiply =>
    have hprod := foldl_ofInt (f := (· * ·)) (g := (· * ·)) (by simp [Int64.ofInt_mul]) ns 1
    rw [← List.prod_eq_foldl, Option.some.inj hm] at hprod
    exact congrArg (fun n => Except.ok (Value.int n)) hprod
  | minus =>
    cases ns with
    | nil => cases hm
    | cons n ns =>
      have hdiff := foldl_ofInt (f := (· - ·)) (g := (· - ·)) (by simp [Int64.ofInt_sub]) ns n.toInt
      rw [foldl_sub_eq, Option.some.inj hm, Int64.ofInt_toInt] at hdiff
      exact congrArg (fun n => Except.ok (Value.int n)) hdiff
  | divide | mod => cases hm

/-- Sums and products do not depend on the order. -/
theorem outcome_perm {op : Arith} (hop : op = .plus ∨ op = .multiply) {ns ns' : List Int64}
    (hperm : ns'.Perm ns) : op.outcome ns' = op.outcome ns := by
  have hsum (ns : List Int64) :
      plus.outcome ns = .ok (.int (.ofInt (ns.map Int64.toInt).sum)) := outcome_of_total? rfl
  have hproduct (ns : List Int64) :
      multiply.outcome ns = .ok (.int (.ofInt (ns.map Int64.toInt).prod)) := outcome_of_total? rfl
  have hints := hperm.map Int64.toInt
  rcases hop with rfl | rfl
  · rw [hsum, hsum, hints.sum_eq]
  · rw [hproduct, hproduct, hints.prod_eq]

theorem outcome_minus_perm (n : Int64) {ns ns' : List Int64} (hperm : ns'.Perm ns) :
    minus.outcome (n :: ns') = minus.outcome (n :: ns) := by
  have hdifference (ns : List Int64) : minus.outcome (n :: ns) =
      .ok (.int (.ofInt (n.toInt - (ns.map Int64.toInt).sum))) := outcome_of_total? rfl
  rw [hdifference, hdifference, (hperm.map Int64.toInt).sum_eq]

end Arith

/-! ## Literal operands -/

/-- The form is a scalar that stands for itself, and coerces to the integer. -/
structure Registry.IsNumeral (reg : Registry) (form : Json) (n : Int64) : Prop where
  plain : form.IsPlain reg
  scalar : form.nesting = 0
  toInt_eq : ∀ h, (Value.ofJson form h).1.toInt h = .ok n

theorem Registry.isNumeral_int (reg : Registry) (n : Int64) : reg.IsNumeral (.int n.toInt) n where
  plain := .int _
  scalar := rfl
  toInt_eq h := by
    have hrange : Int64.minValue.toInt ≤ n.toInt ∧ n.toInt ≤ Int64.maxValue.toInt :=
      ⟨n.minValue_le_toInt, n.toInt_le⟩
    rw [Value.ofJson, Value.ofInt, if_pos hrange, Int64.ofInt_toInt]
    rfl

namespace Registry.IsNumeral

variable {reg : Registry} {form : Json} {n : Int64} {forms : List Json} {ns : List Int64}

/-- A numeral evaluates to itself, in any state and with no effect. -/
theorem eval_eq (hform : reg.IsNumeral form n) {depth : Nat} (hdepth : 0 < depth) (env : MapRef)
    (s : State) :
    (reg.scope (·.evaluate depth) env).eval (.ofForm form) s =
      .ended ⟨.ok (Value.ofJson form s.heap).1, s⟩ := by
  have hraw : (Operand.ofForm form).raw = form := by
    cases hform.plain with
    | string hs =>
      rw [Operand.ofForm, normalizePath_eq_self, String.ofList_toList]
      intro c rest htext
      exact absurd (by rw [htext]; rfl) hs.noPath
    | _ => rfl
  have hheap : (Value.ofJson form s.heap).2 = s.heap := by
    have hscalar := hform.scalar
    cases form with
    | array | object => simp [Json.nesting] at hscalar
    | _ => rfl
  have heval := evaluate_eq_ofJson hform.plain (hform.scalar ▸ hdepth) env
  rw [Scope.eval, hraw]
  change reg.evaluate depth env form s = _
  rw [heval]
  change Course.ended (Outcome.mk _ { s with heap := (Value.ofJson form s.heap).2 }) = _
  rw [hheap]

theorem evaluates (hforms : List.Forall₂ reg.IsNumeral forms ns) {depth : Nat} (hdepth : 0 < depth)
    (env : MapRef) (s : State) :
    ∃ vs, (reg.scope (·.evaluate depth) env).Evaluates (forms.map .ofForm) s vs s ∧
      Value.Ints s.heap vs ns := by
  induction hforms with
  | nil => exact ⟨[], .nil, .nil⟩
  | cons hform _ ih =>
    obtain ⟨vs, hvs, hints⟩ := ih
    exact ⟨_, .cons (hform.eval_eq hdepth env s) hvs, .cons (hform.toInt_eq s.heap) hints⟩

/-- An operation on numerals. -/
theorem evaluate_arith (hreg : reg.HasBuiltin) {op : Arith} {key : String} (hkey : key ∈ op.names)
    (hforms : List.Forall₂ reg.IsNumeral forms ns) (hlength : op.least ≤ ns.length) {depth : Nat}
    (hdepth : 0 < depth) (env : MapRef) (s : State) :
    reg.evaluate (depth + 1) env (.object [(key, .array forms)]) s = .ended ⟨op.outcome ns, s⟩ := by
  obtain ⟨vs, hargs, hints⟩ := evaluates hforms hdepth env s
  exact evaluate_arith_of_ints hreg hkey hargs hints hlength

/-- Numerals are added and multiplied in any order. -/
theorem evaluate_perm (hreg : reg.HasBuiltin) {op : Arith} (hop : op = .plus ∨ op = .multiply)
    {key : String} (hkey : key ∈ op.names) (hforms : List.Forall₂ reg.IsNumeral forms ns)
    {forms' : List Json} (hperm : forms'.Perm forms) {depth : Nat} (hdepth : 0 < depth)
    (env : MapRef) (s : State) :
    reg.evaluate (depth + 1) env (.object [(key, .array forms')]) s =
      reg.evaluate (depth + 1) env (.object [(key, .array forms)]) s := by
  obtain ⟨ns', hforms', hperm'⟩ := List.perm_comp_forall₂ hperm hforms
  have hleast : op.least = 0 := by rcases hop with rfl | rfl <;> rfl
  rw [evaluate_arith hreg hkey hforms (by omega) hdepth env s,
    evaluate_arith hreg hkey hforms' (by omega) hdepth env s, Arith.outcome_perm hop hperm']

/-- Numerals are subtracted from the first one in any order. -/
theorem evaluate_minus_perm (hreg : reg.HasBuiltin) {key : String} (hkey : key ∈ Arith.minus.names)
    {first : Json} {rest rest' : List Json}
    (hforms : List.Forall₂ reg.IsNumeral (first :: rest) ns) (hperm : rest'.Perm rest)
    {depth : Nat} (hdepth : 0 < depth) (env : MapRef) (s : State) :
    reg.evaluate (depth + 1) env (.object [(key, .array (first :: rest'))]) s =
      reg.evaluate (depth + 1) env (.object [(key, .array (first :: rest))]) s := by
  cases hforms with
  | cons hfirst hrest =>
    obtain ⟨ms, hrest', hperm'⟩ := List.perm_comp_forall₂ hperm hrest
    rw [evaluate_arith hreg hkey (.cons hfirst hrest) (by simp [Arith.least]) hdepth env s,
      evaluate_arith hreg hkey (.cons hfirst hrest') (by simp [Arith.least]) hdepth env s,
      Arith.outcome_minus_perm _ hperm']

end Registry.IsNumeral

/-! ## Totals -/

/-- Addition, multiplication and subtraction, under any of their names. If the operands evaluate one
after the other to values that coerce to integers, the result is the one integer of 64 bits that is
congruent to the exact one, so the order of numerals does not matter, but for the one from which the
others are subtracted. An operand that fails ends the evaluation with its error, where it stands;
if all evaluate, the error is that of the first value that does not coerce, and the effects of all
operands stay. -/
theorem evaluate_totals (reg : Registry) (hreg : reg.HasBuiltin) (op : Arith) (key : String)
    (hkey : key ∈ op.names) (depth : Nat) (env : MapRef) (s : State) :
    let sc := reg.scope (·.evaluate depth) env
    let result (operand : Json) := reg.evaluate (depth + 1) env (.object [(key, operand)]) s
    (∀ operand vs t ns m, sc.Evaluates (Registry.operandsOf operand) s vs t →
      Value.Ints t.heap vs ns → op.total? (ns.map Int64.toInt) = some m →
      ∃ n : Int64, result operand = .ended ⟨.ok (.int n), t⟩ ∧
        ∀ k : Int64, k.toInt ≡ m [ZMOD 2 ^ 64] ↔ k = n) ∧
    (op = .plus ∨ op = .multiply → 0 < depth → ∀ forms forms' ns,
      List.Forall₂ reg.IsNumeral forms ns → forms'.Perm forms →
      result (.array forms') = result (.array forms)) ∧
    (op = .minus → 0 < depth → ∀ first rest rest' ns,
      List.Forall₂ reg.IsNumeral (first :: rest) ns → rest'.Perm rest →
      result (.array (first :: rest')) = result (.array (first :: rest))) ∧
    (∀ operand before bad after vs t e u,
      Registry.operandsOf operand = before ++ bad :: after → sc.Evaluates before s vs t →
      sc.eval bad t = .ended ⟨.error e, u⟩ → result operand = .ended ⟨.error e, u⟩) ∧
    ∀ operand good bad rest t ns e,
      sc.Evaluates (Registry.operandsOf operand) s (good ++ bad :: rest) t →
      Value.Ints t.heap good ns → bad.toInt t.heap = .error e →
      result operand = .ended ⟨.error e, t⟩ := by
  intro sc result
  have hrun (operand : Json) (hlength : op.least ≤ (Registry.operandsOf operand).length) :
      result operand = op.run sc (Registry.operandsOf operand) s :=
    congrFun (Registry.evaluate_arith hreg hkey hlength depth env) s
  have hleast : op.least ≤ 1 := by cases op <;> simp [Arith.least]
  refine ⟨?_, ?_, ?_, ?_, ?_⟩
  · intro operand vs t ns m hargs hints hm
    refine ⟨.ofInt m, ?_, fun k => toInt_modEq_iff k m⟩
    have hlength : op.least ≤ ns.length := by simpa using Arith.least_le_of_total? hm
    rw [← Arith.outcome_of_total? hm]
    exact Registry.evaluate_arith_of_ints hreg hkey hargs hints hlength
  · intro hop hdepth forms forms' ns hforms hperm
    exact Registry.IsNumeral.evaluate_perm hreg hop hkey hforms hperm hdepth env s
  · rintro rfl hdepth first rest rest' ns hforms hperm
    exact Registry.IsNumeral.evaluate_minus_perm hreg hkey hforms hperm hdepth env s
  · intro operand before bad after vs t e u hoperands hbefore hbad
    have hlength : op.least ≤ (Registry.operandsOf operand).length := by
      rw [hoperands, List.length_append, List.length_cons]
      omega
    rw [hrun operand hlength, hoperands]
    exact op.run_of_error hbefore hbad after
  · intro operand good bad rest t ns e hargs hgood hbad
    have hlength : op.least ≤ (Registry.operandsOf operand).length := by
      rw [hargs.length_eq, List.length_append, List.length_cons]
      omega
    rw [hrun operand hlength]
    exact op.run_of_mismatch hargs hgood hbad

namespace Wrapping

/-- An empty environment. -/
def start : State := { heap := { maps := #[.empty] } }

/-- The environment after `n` was set. -/
def later : State := { heap := { maps := #[.ofList [("n", .int 5)]] } }

def write : Json := .object [("$.n", .int 5)]

/-- `not` without its operands. -/
def failing : Json := .object [("not", .array [])]

theorem isNumeral_one : Registry.builtin.IsNumeral (.string "1") 1 where
  plain := .string ⟨by decide, by decide, by decide, by decide⟩
  scalar := rfl
  toInt_eq _ := by rfl

/-- A sum that wraps, in both orders; one with an operand that fails after a write, before another;
and one whose first value is no integer, with the write behind it done. -/
theorem evaluate_totals_start :
    let result (items : List Json) :=
      Registry.builtin.evaluate 4 ⟨0⟩ (.object [("+", .array items)]) start
    (∃ n : Int64, result [.int 9223372036854775807, .string "1"] = .ended ⟨.ok (.int n), start⟩ ∧
      ∀ k : Int64, k.toInt ≡ 9223372036854775808 [ZMOD 2 ^ 64] ↔ k = n) ∧
    result [.string "1", .int 9223372036854775807] =
      result [.int 9223372036854775807, .string "1"] ∧
    result [write, failing, .object [("$.n", .int 6)]] =
      .ended ⟨.error (.badOperand (.count "not" 2 0)), later⟩ ∧
    result [.null, write] = .ended ⟨.error (.typeMismatch (.notInteger "null")), later⟩ := by
  intro result
  obtain ⟨htotal, hperm, -, herror, hmismatch⟩ :=
    evaluate_totals .builtin (fun _ _ h => h) .plus "+" (by decide) 3 ⟨0⟩ start
  have hnumerals : List.Forall₂ Registry.builtin.IsNumeral
      [.int 9223372036854775807, .string "1"] [Int64.maxValue, 1] :=
    .cons (Registry.isNumeral_int .builtin Int64.maxValue) (.cons isNumeral_one .nil)
  obtain ⟨vs, hvs, hints⟩ := Registry.IsNumeral.evaluates hnumerals (show 0 < 3 by decide) ⟨0⟩
    start
  refine ⟨?_, ?_, ?_, ?_⟩
  · exact htotal _ vs start _ _ hvs hints rfl
  · exact hperm (.inl rfl) (by decide) _ _ _ hnumerals (List.Perm.swap _ _ _)
  · exact herror _ [.ofForm write] (.ofForm failing) [.ofForm (.object [("$.n", .int 6)])] [.null]
      later _ later rfl (.cons rfl .nil) rfl
  · exact hmismatch _ [] .null [.null] later [] _ (.cons rfl (.cons rfl .nil)) .nil rfl

end Wrapping

end Sigil
