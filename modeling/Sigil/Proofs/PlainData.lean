import Sigil.Proofs.ReadBack

/-!
# Plain data

Programs and data share one syntax. Where no string is an expression or the name of a host value,
and no object with a single field is an invocation or an assignment (`Json.IsPlain`), a document
evaluates to itself (`evaluate_plain`).
-/

namespace Sigil

namespace Json

mutual

/-- How deep arrays and objects are nested. -/
def nesting : Json → Nat
  | .array items => nestingItems items + 1
  | .object fields => nestingFields fields + 1
  | _ => 0

def nestingItems : List Json → Nat
  | [] => 0
  | j :: rest => max (nesting j) (nestingItems rest)

def nestingFields : List (String × Json) → Nat
  | [] => 0
  | (_, j) :: rest => max (nesting j) (nestingFields rest)

end

theorem nesting_le_nestingItems {items : List Json} {j : Json} (hj : j ∈ items) :
    nesting j ≤ nestingItems items := by
  induction items with
  | nil => cases hj
  | cons i rest ih =>
    rw [nestingItems]
    rcases List.mem_cons.1 hj with rfl | hj
    · omega
    · have hle := ih hj
      omega

theorem nesting_le_nestingFields {fields : List (String × Json)} {e : String × Json}
    (he : e ∈ fields) : nesting e.2 ≤ nestingFields fields := by
  induction fields with
  | nil => cases he
  | cons d rest ih =>
    rw [nestingFields]
    rcases List.mem_cons.1 he with rfl | he
    · omega
    · have hle := ih he
      omega

end Json

namespace Registry

/-- The string is no path, no comparison, no arithmetic and no name of a host value. -/
structure IsLiteral (reg : Registry) (s : String) : Prop where
  noPath : s.toList.head? ≠ some sigil
  noComparison : Shorthand.comparison? s.toList = none
  noArithmetic : Shorthand.arithmetic? s.toList = none
  unbound : reg.values.get? s = none

/-- The key names no operator and is no path. -/
structure IsPlainKey (reg : Registry) (key : String) : Prop where
  noOperator : reg.operator? key = none
  noPath : key.toList.head? ≠ some sigil

end Registry

/-- All strings are literals, and objects with a single field have a plain key. -/
inductive Json.IsPlain (reg : Registry) : Json → Prop where
  | null : IsPlain reg .null
  | bool (b : Bool) : IsPlain reg (.bool b)
  | int (n : Int) : IsPlain reg (.int n)
  | float (x : Float) : IsPlain reg (.float x)
  | string {s : String} (hs : reg.IsLiteral s) : IsPlain reg (.string s)
  | array {items : List Json} (hitems : ∀ j ∈ items, IsPlain reg j) : IsPlain reg (.array items)
  | object {fields : List (String × Json)} (hfields : ∀ e ∈ fields, IsPlain reg e.2)
      (hkey : ∀ key j, fields = [(key, j)] → reg.IsPlainKey key) : IsPlain reg (.object fields)

namespace Registry

variable {reg : Registry}

/-- A text that is no expression is a host value or stands for itself. -/
theorem evalText_of_no_expression {text : List Char} (hpath : text.head? ≠ some sigil)
    (hcomparison : Shorthand.comparison? text = none)
    (harithmetic : Shorthand.arithmetic? text = none) (ev : Registry → Evaluator) (env : MapRef) :
    reg.evalText ev env text =
      pure ((reg.values.get? (String.ofList text)).getD (.string (String.ofList text))) := by
  have hroot : text ≠ [sigil] := fun heq => hpath (by rw [heq]; rfl)
  rw [evalText, if_neg hroot, hcomparison]
  dsimp only
  rw [harithmetic]
  dsimp only
  rw [if_neg hpath]

theorem evalText_of_isLiteral {s : String} (hs : reg.IsLiteral s) (ev : Registry → Evaluator)
    (env : MapRef) :
    reg.evalText ev env s.toList = EvalM.ofJson (.string s) := by
  rw [evalText_of_no_expression hs.noPath hs.noComparison hs.noArithmetic, String.ofList_toList,
    hs.unbound]
  rfl

theorem objectRole_of_isPlainKey {fields : List (String × Json)}
    (hkey : ∀ key j, fields = [(key, j)] → reg.IsPlainKey key) : reg.objectRole fields = .data := by
  match fields with
  | [] => rfl
  | _ :: _ :: _ => rfl
  | [(key, j)] =>
    obtain ⟨hoperator, hpath⟩ := hkey key j rfl
    rw [objectRole, hoperator, if_neg (by simp), if_neg hpath]

/-- Items that evaluate to themselves are built one after the other. -/
theorem evalItems_eq_onHeap {ev : Json → EvalM Value} {items : List Json}
    (hev : ∀ j ∈ items, ev j = EvalM.ofJson j) :
    evalItems ev items = EvalM.onHeap (Value.ofItems items) := by
  induction items with
  | nil => rfl
  | cons j rest ih =>
    rw [List.forall_mem_cons] at hev
    rw [evalItems, hev.1, ih hev.2]
    rfl

theorem evalFields_eq_onHeap {ev : Json → EvalM Value} {fields : List (String × Json)}
    (hev : ∀ e ∈ fields, ev e.2 = EvalM.ofJson e.2) :
    evalFields ev fields = EvalM.onHeap (Value.ofFields fields) := by
  induction fields with
  | nil => rfl
  | cons e rest ih =>
    rw [List.forall_mem_cons] at hev
    rw [evalFields, hev.1, ih hev.2]
    rfl

/-- Evaluating plain data builds it. -/
theorem evaluate_eq_ofJson {j : Json} (hj : j.IsPlain reg) {depth : Nat}
    (hdepth : j.nesting < depth) (env : MapRef) : reg.evaluate depth env j = EvalM.ofJson j := by
  induction hj generalizing depth with
  | null | bool | int | float =>
    obtain ⟨depth, rfl⟩ := Nat.exists_eq_add_of_lt hdepth
    rfl
  | string hs =>
    obtain ⟨depth, rfl⟩ := Nat.exists_eq_add_of_lt hdepth
    exact evalText_of_isLiteral hs _ env
  | @array items _ ih =>
    obtain ⟨depth, rfl⟩ := Nat.exists_eq_add_of_lt hdepth
    have hitems : evalItems (reg.evaluate ((Json.array items).nesting + depth) env) items =
        EvalM.onHeap (Value.ofItems items) := by
      refine evalItems_eq_onHeap fun j hj => ih j hj ?_
      have hle := Json.nesting_le_nestingItems hj
      rw [Json.nesting]
      omega
    rw [evaluate, step, hitems]
    rfl
  | @object fields _ hkey ih =>
    obtain ⟨depth, rfl⟩ := Nat.exists_eq_add_of_lt hdepth
    have hfields : evalFields (reg.evaluate ((Json.object fields).nesting + depth) env) fields =
        EvalM.onHeap (Value.ofFields fields) := by
      refine evalFields_eq_onHeap fun e he => ih e he ?_
      have hle := Json.nesting_le_nestingFields he
      rw [Json.nesting]
      omega
    rw [evaluate, step, objectRole_of_isPlainKey hkey]
    dsimp only
    rw [hfields]
    rfl

end Registry

/-- Plain data evaluates to itself: in every state the evaluation succeeds at any depth beyond the
nesting of the document, leaves everything that was there as it was, and gives a value that is read
back as the document itself is, wherever that is built. -/
theorem evaluate_plain (reg : Registry) (j : Json) (hj : j.IsPlain reg) (depth : Nat)
    (hdepth : j.nesting < depth) (env : MapRef) (s : State) :
    ∃ v t, reg.evaluate depth env j s = .ended ⟨.ok v, t⟩ ∧ s.Untouched t ∧
      ∀ h, v.toJson t.heap = (Value.ofJson j h).1.toJson (Value.ofJson j h).2 := by
  rw [Registry.evaluate_eq_ofJson hj hdepth]
  refine ⟨_, _, rfl, ((readable_untouched s).ofJson j (.refl s)).1, fun h => ?_⟩
  rw [Value.toJson_ofJson, Value.toJson_ofJson]

/-- Names of operators and paths are plain where they stand among other fields, and so is text with
the sign of a relation that has no right operand. -/
theorem evaluate_plain_fields :
    let reg : Registry := .only (Bindings.builtin.bindValue "word" (.int 1))
    let doc : Json := .object [("plus", .array [.int 1, .string "1 < x"]),
      ("$.a", .object [("words", .string "wor d")])]
    doc.IsPlain reg ∧ doc.nesting < 3 ∧
      ∃ v t, reg.evaluate 3 ⟨0⟩ doc {} = .ended ⟨.ok v, t⟩ ∧ v.toJson t.heap = doc := by
  intro reg doc
  have hplain : doc.IsPlain reg := by
    refine .object ?_ fun _ _ heq => by simp at heq
    simp only [List.forall_mem_cons, List.not_mem_nil, false_imp_iff, implies_true, and_true]
    refine ⟨.array ?_, .object ?_ ?_⟩
    · simp only [List.forall_mem_cons, List.not_mem_nil, false_imp_iff, implies_true, and_true]
      exact ⟨.int 1, .string ⟨by decide, by decide, by decide, by decide⟩⟩
    · simp only [List.forall_mem_cons, List.not_mem_nil, false_imp_iff, implies_true, and_true]
      exact .string ⟨by decide, by decide, by decide, by decide⟩
    · rintro key j heq
      cases heq
      exact ⟨rfl, by decide⟩
  have hnesting : doc.nesting < 3 := by decide
  obtain ⟨v, t, heval, -, hread⟩ := evaluate_plain reg doc hplain 3 hnesting ⟨0⟩ {}
  refine ⟨hplain, hnesting, v, t, heval, (hread {}).trans ?_⟩
  rw [Value.toJson_ofJson]
  rfl

end Sigil
