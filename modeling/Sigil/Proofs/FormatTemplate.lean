import Mathlib.Tactic.ByContra
import Sigil.Proofs.ReadOnly

/-!
# Templates as operands

A template is an operand, and operands that look like paths are written with a point after the sigil
before an operator sees them. So `format` fills a template as it is written, unless that begins with
the sigil and a character other than a point: then a point gets between the two
(`evaluate_format`, `evaluate_format_price`).
-/

namespace Sigil

/-- `format` with a template and the forms of the values that go into it. -/
def formatForm (template : String) (forms : List Json) : Json :=
  .object [("format", .array (.string template :: forms))]

namespace Operators

theorem fill_cons_of_ne {c : Char} (hc : c ≠ '%') (rest : List Char) (texts : List (List Char)) :
    fill (c :: rest) texts = c :: fill rest texts := by
  simp [fill, hc]

/-- A point after the sigil shows, whatever is filled in. -/
theorem formatTemplate_point_ne (h : Heap) (rest : List Char) (vs : List Value) :
    formatTemplate h (String.ofList (sigil :: '.' :: rest)) vs ≠
      formatTemplate h (String.ofList (sigil :: rest)) vs := by
  intro heq
  -- Sigil and point are copied, so the two results differ in length.
  have hfill := congrArg (List.length ∘ String.toList) heq
  simp only [Function.comp, formatTemplate, String.toList_ofList] at hfill
  rw [fill_cons_of_ne (by decide), fill_cons_of_ne (by decide), fill_cons_of_ne (by decide)]
    at hfill
  simp at hfill

end Operators

theorem Registry.operator?_format : builtin.operator? "format" =
    some { name := "format", arity := .between 1 none, run := Operators.format } := rfl

theorem Registry.evaluate_formatForm {reg : Registry} (hreg : reg.HasBuiltin) {depth : Nat}
    {env : MapRef} {s t : State} {forms : List Json} {vs : List Value}
    (hforms : (reg.scope (·.evaluate depth) env).evalAll (forms.map .ofForm) s =
      .ended ⟨.ok vs, t⟩) (template : String) :
    reg.evaluate (depth + 1) env (formatForm template forms) s =
      .ended ⟨.ok (.string (Operators.formatTemplate t.heap
        (String.ofList (normalizePath template.toList)) vs)), t⟩ := by
  have hformat := hreg "format" _ operator?_format
  simp only [evaluate, step, formatForm, objectRole_of_operator? hformat, invoke, hformat]
  refine (EvalM.bind_of_ok rfl).trans ?_
  refine (EvalM.bind_of_ok rfl).trans ?_
  exact EvalM.bind_of_ok hforms

/-- If the operands evaluate, `format` gives the template filled with their values exactly when no
character other than a point follows a sigil at its beginning. Otherwise the template is filled with
a point between the two. -/
theorem evaluate_format (reg : Registry) (hreg : reg.HasBuiltin) (depth : Nat) (env : MapRef)
    (s t : State) (template : String) (forms : List Json) (vs : List Value)
    (hforms : (reg.scope (·.evaluate depth) env).evalAll (forms.map .ofForm) s =
      .ended ⟨.ok vs, t⟩) :
    (reg.evaluate (depth + 1) env (formatForm template forms) s =
        .ended ⟨.ok (.string (Operators.formatTemplate t.heap template vs)), t⟩ ↔
      ∀ c rest, template.toList = sigil :: c :: rest → c = '.') ∧
    ∀ c rest, template.toList = sigil :: c :: rest → c ≠ '.' →
      reg.evaluate (depth + 1) env (formatForm template forms) s =
        .ended ⟨.ok (.string (Operators.formatTemplate t.heap
          (String.ofList (sigil :: '.' :: c :: rest)) vs)), t⟩ := by
  rw [Registry.evaluate_formatForm hreg hforms]
  have hpoint (c : Char) (rest : List Char) (htemplate : template.toList = sigil :: c :: rest)
      (hc : c ≠ '.') : normalizePath template.toList = sigil :: '.' :: c :: rest := by
    rw [htemplate, normalizePath_of_ne hc]
  refine ⟨⟨fun heq c rest htemplate => ?_, fun htemplate => ?_⟩, fun c rest htemplate hc => ?_⟩
  · by_contra hc
    have htext : template = String.ofList (sigil :: c :: rest) := by
      rw [← htemplate, String.ofList_toList]
    refine Operators.formatTemplate_point_ne t.heap (c :: rest) vs ?_
    rw [← hpoint c rest htemplate hc, ← htext]
    simpa using heq
  · rw [normalizePath_eq_self htemplate, String.ofList_toList]
  · rw [hpoint c rest htemplate hc]

/-- A template with the sigil inside is filled as it is written, also by values with a mark. -/
theorem evaluate_format_inner :
    let forms : List Json := [.string "%s", .int 5]
    let vs : List Value := [.string "%s", .int 5]
    (Registry.builtin.scope (·.evaluate 1) ⟨0⟩).evalAll (forms.map .ofForm) {} =
        .ended ⟨.ok vs, {}⟩ ∧
      Registry.builtin.evaluate 2 ⟨0⟩ (formatForm "%s: $%s" forms) {} =
        .ended ⟨.ok (.string (Operators.formatTemplate {} "%s: $%s" vs)), {}⟩ := by
  intro forms vs
  have hforms : (Registry.builtin.scope (·.evaluate 1) ⟨0⟩).evalAll
      (forms.map .ofForm) {} = .ended ⟨.ok vs, {}⟩ := rfl
  refine ⟨hforms, (evaluate_format .builtin (fun _ _ h => h) 1 ⟨0⟩ {} {} _ _ _ hforms).1.2 ?_⟩
  intro c rest heq
  simp [sigil] at heq

/-- A price is not filled in as it is written. -/
theorem evaluate_format_price :
    (Registry.builtin.scope (·.evaluate 1) ⟨0⟩).evalAll [.ofForm (.int 5)] {} =
        .ended ⟨.ok [.int 5], {}⟩ ∧
      Operators.formatTemplate {} "$%s" [.int 5] = "$5" ∧
      (Registry.builtin.evaluate 2 ⟨0⟩ (formatForm "$%s" [.int 5]) {}).outcome?.map Outcome.result =
        some (.ok (.string "$.5")) := by
  refine ⟨rfl, ?_, ?_⟩
  · decide
  · rfl

end Sigil
