import Sigil.Proofs.PathSegments
import Sigil.Proofs.ShorthandOperands
import Sigil.Proofs.Termination

/-!
# Texts as written and as operands

Operators see their operands with a point after the sigil, while the elements of an array are
evaluated as they are written. The two come to the same (`evaluate_normalizePath`). The point
belongs to the left operand of a shorthand, where it is put anyway; only a sigil alone stands for
the environment without it and for nothing with it, and neither is an integer.
-/

namespace Sigil

/-- Errors of one kind may differ in their cause. -/
def EvalError.SameKind : EvalError → EvalError → Prop
  | .typeMismatch _, .typeMismatch _ => True
  | .badOperand _, .badOperand _ => True
  | .noMatch _, .noMatch _ => True
  | .host _, .host _ => True
  | .unknownOperator _, .unknownOperator _ => True
  | _, _ => False

theorem EvalError.SameKind.refl (e : EvalError) : e.SameKind e := by cases e <;> trivial

/-- The same state, with the same value or with errors of one kind. -/
structure Outcome.Alike (o o' : Outcome Value) : Prop where
  state : o.state = o'.state
  result : (∃ v, o.result = .ok v ∧ o'.result = .ok v) ∨
    ∃ e e', o.result = .error e ∧ o'.result = .error e' ∧ e.SameKind e'

theorem Outcome.Alike.refl (o : Outcome Value) : o.Alike o := by
  refine ⟨rfl, ?_⟩
  cases hresult : o.result with
  | ok v => exact .inl ⟨v, rfl, rfl⟩
  | error e => exact .inr ⟨e, e, rfl, rfl, .refl e⟩

/-! ## The point in shorthand -/

theorem normalizePath_normalizePath (text : List Char) :
    normalizePath (normalizePath text) = normalizePath text := by
  apply normalizePath_eq_self
  intro c rest heq
  unfold normalizePath at heq
  split at heq
  · cases heq
  · exact (List.cons.inj (List.cons.inj heq).2).1.symm
  · exact (List.cons.inj (List.cons.inj heq).2).1.symm
  · rename_i hpath
    exact absurd heq (hpath _)

namespace Shorthand

/-- The same with a point after the sigil of the left operand. -/
def Binary.point {op : Type} (b : Binary op) : Binary op :=
  { b with left := sigil :: '.' :: b.left.tail }

theorem comparison?_point (rest : List Char) :
    comparison? (sigil :: '.' :: rest) = (comparison? (sigil :: rest)).map Binary.point := by
  have hstart : isOperandStart sigil = true := by decide
  have hsplit := splitRelation?_cons (c := '.') (by decide) (by decide) (by decide) rest
  simp only [comparison?, hstart, if_true, hsplit, Option.map_map]
  rfl

theorem arithmetic?_point (rest : List Char) :
    arithmetic? (sigil :: '.' :: rest) = (arithmetic? (sigil :: rest)).map Binary.point := by
  have hany : (sigil :: '.' :: rest).any (fun c => c = '[' || c = ']') =
      (sigil :: rest).any fun c => c = '[' || c = ']' := by
    simp [sigil]
  have hwritten : (sigil :: rest).takeWhile (· ≠ ' ') = sigil :: rest.takeWhile (· ≠ ' ') := by
    simp [sigil]
  have hpointed : (sigil :: '.' :: rest).takeWhile (· ≠ ' ') =
      sigil :: '.' :: rest.takeWhile (· ≠ ' ') := by
    simp [sigil]
  unfold arithmetic?
  rw [hany, hwritten, hpointed]
  simp only [List.length_cons, List.drop_succ_cons]
  split_ifs
  · rfl
  · cases dropSpaces (rest.drop (rest.takeWhile (· ≠ ' ')).length) with
    | nil => rfl
    | cons c after =>
      cases hop : Arith.ofChar? c <;> cases hright : arithmeticRight? after <;>
        simp [hop, hright, Binary.point]

/-- The left operand is a sigil alone, or it is the same operand with and without the point. -/
theorem left_eq_sigil_or {left tail rest : List Char} (htext : sigil :: rest = left ++ tail)
    (hleft : left ≠ []) (hrest : rest.head? ≠ some '.') :
    left = [sigil] ∨ Operand.ofText left = Operand.ofText (sigil :: '.' :: left.tail) := by
  obtain ⟨c, left, rfl⟩ := List.exists_cons_of_ne_nil hleft
  obtain ⟨rfl, rfl⟩ := List.cons.inj htext
  cases left with
  | nil => exact .inl rfl
  | cons d left =>
    have hd : d ≠ '.' := by simpa using hrest
    have hnormal : normalizePath (sigil :: d :: left) =
        normalizePath (sigil :: '.' :: d :: left) := normalizePath_of_ne hd left
    refine .inr ?_
    simp only [Operand.ofText, Operand.ofForm, String.toList_ofList, List.tail_cons, hnormal]

end Shorthand

/-! ## The sigil alone -/

namespace Registry

variable {reg : Registry} (hreg : reg.HasBuiltin)
  (hvalues : ∀ name v, reg.values.get? name = some v → name.toList.head? ≠ some sigil)
  (depth : Nat) (env : MapRef) (s : State)

include hreg hvalues in
/-- The path ends at its point and leads nowhere. -/
theorem evaluate_sigil_point :
    reg.evaluate (depth + 1) env (.string "$.") s = .ended ⟨.ok .null, s⟩ := by
  have hresolve : (reg.scope (·.evaluate depth) env).resolveText [sigil, '.'] =
      pure .notFound := Scope.resolveText_point (Scope.contains_path_eq_false hvalues _)
  have hget := hreg "get" _ operator?_get
  have htext : reg.evaluate (depth + 1) env (.string "$.") s =
      reg.invoke (·.evaluate depth) env "get" [.ofText [sigil, '.']] s := rfl
  rw [htext, invoke, hget]
  refine (EvalM.bind_of_ok rfl).trans ?_
  refine (EvalM.bind_of_ok rfl).trans ?_
  exact EvalM.bind_of_ok (congrFun hresolve s)

include hreg hvalues in
/-- Neither the environment nor null is an integer, so an operation on either one fails where the
right operand does or with a mismatch. -/
theorem alike_sigil {run : Operand → Operand → EvalM Value}
    {result : Int64 → Int64 → Except EvalError Value}
    (hrun : (reg.scope (·.evaluate (depth + 1)) env).TakesInts run result) {right : Operand}
    {o : Outcome Value}
    (hright : (reg.scope (·.evaluate (depth + 1)) env).eval right s = .ended o) :
    ∃ o o', run (.ofText [sigil]) right s = .ended o ∧
      run (.ofText [sigil, '.']) right s = .ended o' ∧ o.Alike o' := by
  have hmap : (reg.scope (·.evaluate (depth + 1)) env).eval (.ofText [sigil]) s =
      .ended ⟨.ok (.map env), s⟩ := rfl
  have hnull : (reg.scope (·.evaluate (depth + 1)) env).eval (.ofText [sigil, '.']) s =
      .ended ⟨.ok .null, s⟩ := evaluate_sigil_point hreg hvalues depth env s
  obtain ⟨result, t⟩ := o
  cases result with
  | error e =>
    exact ⟨_, _, hrun.of_right_error hmap hright, hrun.of_right_error hnull hright, .refl _⟩
  | ok w =>
    refine ⟨_, _, hrun.of_left_mismatch hmap hright rfl, hrun.of_left_mismatch hnull hright rfl,
      rfl, .inr ⟨_, _, rfl, rfl, trivial⟩⟩

include hreg hvalues in
/-- An operation takes its left operand with or without the point. -/
theorem alike_point {run : Operand → Operand → EvalM Value}
    {result : Int64 → Int64 → Except EvalError Value}
    (hrun : (reg.scope (·.evaluate (depth + 1)) env).TakesInts run result)
    {left right tail rest : List Char} (htext : sigil :: rest = left ++ tail) (hleft : left ≠ [])
    (hrest : rest.head? ≠ some '.') (hright : right.length < depth)
    {o : Outcome Value} (ho : run (.ofText left) (.ofText right) s = .ended o) :
    ∃ o', run (.ofText (sigil :: '.' :: left.tail)) (.ofText right) s = .ended o' ∧ o.Alike o' := by
  rcases Shorthand.left_eq_sigil_or htext hleft hrest with rfl | heq
  · have hlength := length_normalizePath_le right
    obtain ⟨w, hw⟩ := exists_evaluate_text hreg
      (show (normalizePath right).length < depth + 1 by omega) env s
    have heval : (reg.scope (·.evaluate (depth + 1)) env).eval (.ofText right) s = .ended w := by
      rw [← hw, ← Uniform.raw_ofText]
      rfl
    obtain ⟨o₁, o₂, ho₁, ho₂, halike⟩ := alike_sigil hreg hvalues depth env s hrun heval
    obtain rfl := Course.ended.inj (ho.symm.trans ho₁)
    exact ⟨o₂, ho₂, halike⟩
  · exact ⟨o, heq ▸ ho, .refl o⟩

theorem evalText_of_path {rest : List Char} (hrest : rest ≠ []) (ev : Registry → Evaluator)
    (hcomparison : Shorthand.comparison? (sigil :: rest) = none)
    (harithmetic : Shorthand.arithmetic? (sigil :: rest) = none) :
    reg.evalText ev env (sigil :: rest) = reg.invoke ev env "get" [.ofText (sigil :: rest)] := by
  have hroot : sigil :: rest ≠ [sigil] := by simpa using hrest
  rw [evalText, if_neg hroot, hcomparison]
  dsimp only
  rw [harithmetic]
  exact if_pos rfl

include hreg hvalues in
theorem alike_evalText {text : List Char} (hdepth : text.length ≤ depth) {o : Outcome Value}
    (ho : reg.evalText (·.evaluate (depth + 1)) env text s = .ended o) :
    ∃ o', reg.evalText (·.evaluate (depth + 1)) env (normalizePath text) s = .ended o' ∧
      o.Alike o' := by
  by_cases hpoint : ∀ c rest, text = sigil :: c :: rest → c = '.'
  · rw [normalizePath_eq_self hpoint]
    exact ⟨o, ho, .refl o⟩
  · simp only [not_forall] at hpoint
    obtain ⟨c, rest, rfl, hc⟩ := hpoint
    have hrest : (c :: rest).head? ≠ some '.' := by simpa using hc
    have hcomparison := Shorthand.comparison?_point (c :: rest)
    have harithmetic := Shorthand.arithmetic?_point (c :: rest)
    rw [normalizePath_of_ne hc]
    cases hb : Shorthand.comparison? (sigil :: c :: rest) with
    | some b =>
      rw [hb] at hcomparison
      obtain ⟨⟨m, n, hsplit⟩, -⟩ := Shorthand.shortest_of_comparison? hb
      obtain ⟨hlength, hleft, -⟩ := Shorthand.length_of_comparison? hb
      rw [evalText_of_comparison? hreg _ env hb] at ho
      rw [evalText_of_comparison? hreg _ env hcomparison]
      exact alike_point hreg hvalues depth env s (Scope.takesInts_compare _ b.op) hsplit.text_eq
        hsplit.left_starts.ne_nil hrest (show b.right.length < depth by omega) ho
    | none =>
      rw [hb] at hcomparison
      cases hb' : Shorthand.arithmetic? (sigil :: c :: rest) with
      | some b =>
        rw [hb'] at harithmetic
        obtain ⟨m, n, hsplit⟩ := Shorthand.computes_of_arithmetic? hb'
        obtain ⟨hlength, hleft, -⟩ := Shorthand.length_of_arithmetic? hb'
        rw [evalText_of_arithmetic? hreg _ env hb hb'] at ho
        rw [evalText_of_arithmetic? hreg _ env hcomparison harithmetic]
        exact alike_point hreg hvalues depth env s (Scope.takesInts_run _ b.op) hsplit.text_eq
          hsplit.left_ne_nil hrest (show b.right.length < depth by omega) ho
      | none =>
        rw [hb'] at harithmetic
        -- A path is given to an operator, where it gets the point in any case.
        have hsame : Operand.ofText (sigil :: '.' :: c :: rest) =
            Operand.ofText (sigil :: c :: rest) := by
          simp only [Operand.ofText, Operand.ofForm, String.toList_ofList, normalizePath_of_ne hc]
          rfl
        rw [evalText_of_path env (List.cons_ne_nil _ _) _ hb hb'] at ho
        rw [evalText_of_path env (List.cons_ne_nil _ _) _ hcomparison harithmetic, hsame]
        exact ⟨o, ho, .refl o⟩

end Registry

theorem Operand.ofForm_raw_ofForm (form : Json) :
    Operand.ofForm (Operand.ofForm form).raw = Operand.ofForm form := by
  cases form with
  | string text => simp only [ofForm, String.toList_ofList, normalizePath_normalizePath]
  | _ => rfl

/-- A text has the same value as it is written and as an operand, or fails with the same kind of
error, and the state afterwards is the same. An operand is not changed by being made one again. -/
theorem evaluate_normalizePath (reg : Registry) (hreg : reg.HasBuiltin)
    (hvalues : ∀ name v, reg.values.get? name = some v → name.toList.head? ≠ some sigil)
    (text : String) (env : MapRef) (s : State) :
    (∀ depth, text.toList.length + 1 < depth →
      ∃ o o', reg.evaluate depth env (.string text) s = .ended o ∧
        reg.evaluate depth env (Operand.ofForm (.string text)).raw s = .ended o' ∧ o.Alike o') ∧
    Operand.ofForm (Operand.ofForm (.string text)).raw = Operand.ofForm (.string text) := by
  refine ⟨fun depth hdepth => ?_, Operand.ofForm_raw_ofForm _⟩
  obtain ⟨depth, rfl⟩ : ∃ d, depth = d + 1 + 1 := ⟨depth - 2, by omega⟩
  obtain ⟨o, ho⟩ := exists_evaluate_text hreg
    (show text.toList.length < depth + 1 + 1 by omega) env s
  rw [String.ofList_toList] at ho
  obtain ⟨o', ho', halike⟩ := Registry.alike_evalText hreg hvalues depth env s (by omega) ho
  refine ⟨o, o', ho, ?_, halike⟩
  rw [Operand.ofForm, Registry.evaluate, Registry.step, String.toList_ofList]
  exact ho'

/-- The environment on the left of a relation, with a path on its right. -/
theorem evaluate_normalizePath_sigil :
    (Operand.ofForm (.string "$<$x")).raw = .string "$.<$x" ∧
      ∃ o o', Registry.builtin.evaluate 6 ⟨0⟩ (.string "$<$x") {} = .ended o ∧
        Registry.builtin.evaluate 6 ⟨0⟩ (.string "$.<$x") {} = .ended o' ∧ o.Alike o' := by
  have hvalues : ∀ name v, Registry.builtin.values.get? name = some v →
      name.toList.head? ≠ some sigil := by
    intro name v hv
    cases hv
  have hsame := evaluate_normalizePath .builtin (fun _ _ h => h) hvalues "$<$x" ⟨0⟩ {}
  exact ⟨rfl, hsame.1 6 (by decide)⟩

end Sigil
