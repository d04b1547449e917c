import Sigil.Proofs.StepUniformity

/-!
# Forms that only read

A form whose operators only read may allocate, but leaves everything that was there before as it
was, also when it fails (`evaluate_readOnly`). Every text is such a form: paths with expressions in
brackets, comparisons, arithmetic and literals.
-/

namespace Sigil

open Sigil.Uniform

/-- The form is made of scalars, texts, arrays, objects that are data, and operators that only read.
Making a function does not run its body. -/
inductive Json.ReadOnly : Json → Prop where
  | null : ReadOnly .null
  | bool (b : Bool) : ReadOnly (.bool b)
  | int (n : Int) : ReadOnly (.int n)
  | float (x : Float) : ReadOnly (.float x)
  | string (s : String) : ReadOnly (.string s)
  | array {items : List Json} (hitems : ∀ j ∈ items, ReadOnly j) : ReadOnly (.array items)
  | data {fields : List (String × Json)} (hrole : Registry.builtin.objectRole fields = .data)
      (hfields : ∀ e ∈ fields, ReadOnly e.2) : ReadOnly (.object fields)
  | reader {key : String} {operand : Json} {op : Operator}
      (hop : Registry.builtin.operator? key = some op) (hreader : op.name ∈ Operators.readers)
      (hoperand : ReadOnly operand) : ReadOnly (.object [(key, operand)])
  | function (operand : Json) : ReadOnly (.object [("function", operand)])

theorem Registry.objectRole_of_operator? {reg : Registry} {key : String} {op : Operator}
    (hop : reg.operator? key = some op) (operand : Json) :
    reg.objectRole [(key, operand)] = .invocation key (operandsOf operand) := by
  rw [objectRole, if_pos (by rw [hop]; rfl)]

/-- An object whose field names an operator runs it with as many operands as it takes. -/
theorem Registry.evaluate_invocation {reg : Registry} {key : String} {op : Operator}
    (hop : reg.operator? key = some op) {operand : Json}
    (harity : op.arity.check op.name (operandsOf operand).length = .ok ()) (depth : Nat)
    (env : MapRef) :
    reg.evaluate (depth + 1) env (.object [(key, operand)]) =
      op.run (reg.scope (·.evaluate depth) env) (operandsOf operand) := by
  simp only [evaluate, step, objectRole_of_operator? hop, invoke, hop, harity]
  rfl

namespace Json.ReadOnly

theorem raw_ofForm {form : Json} (hform : ReadOnly form) : ReadOnly (Operand.ofForm form).raw := by
  cases form with
  | string s => exact .string _
  | _ => exact hform

theorem mem_operandsOf {operand : Json} (hoperand : ReadOnly operand) {o : Operand}
    (ho : o ∈ Registry.operandsOf operand) : ReadOnly o.raw := by
  obtain ⟨form, rfl, rfl | ⟨items, rfl, hmem⟩⟩ := Registry.mem_operandsOf ho
  · exact hoperand.raw_ofForm
  · cases hoperand with
    | array hitems => exact (hitems form hmem).raw_ofForm

/-- What a step evaluates of a form that only reads does so too. -/
theorem parts {form : Json} (hform : ReadOnly form) : Parts ReadOnly form := by
  cases hform with
  | null | bool | int | float => trivial
  | string s => exact fun t _ => .string _
  | array hitems => exact hitems
  | data hrole hfields => rwa [Parts, hrole]
  | reader hop hreader hoperand =>
    rw [Parts, Registry.objectRole_of_operator? hop]
    refine ⟨fun _ o ho => ?_, fun _ o _ ns _ name _ => .string _⟩
    have hraw := hoperand.mem_operandsOf ho
    exact ⟨hraw, located_of_texts (fun _ => .string _) hraw⟩
  | function operand =>
    rw [Parts, Registry.objectRole_of_operator? Registry.operator?_function]
    exact ⟨fun h => absurd rfl h, fun _ o _ ns _ name _ => .string _⟩

theorem name_mem_readers {form : Json} (hform : ReadOnly form) {op : Operator}
    (hop : Invokes form op) : op.name ∈ Operators.readers := by
  obtain ⟨fields, name, args, rfl, hrole, hop⟩ := hop
  cases hform with
  | data hdata _ => rw [hdata] at hrole; cases hrole
  | reader hop' hreader hoperand =>
    rw [Registry.objectRole_of_operator? hop'] at hrole
    cases hrole
    rw [hop] at hop'
    exact Option.some.inj hop' ▸ hreader
  | function operand =>
    rw [Registry.objectRole_of_operator? Registry.operator?_function] at hrole
    cases hrole
    rw [Registry.operator?_function] at hop
    rw [← Option.some.inj hop]
    decide

end Json.ReadOnly

/-! ## What reading keeps -/

/-- All that was in the first state is in the second as it was. -/
structure State.Untouched (s t : State) : Prop where
  heap : s.heap.Extends t.heap
  natives : t.heap.natives = s.heap.natives
  rest : { t with heap := s.heap } = s

theorem State.Untouched.refl (s : State) : s.Untouched s := ⟨.refl _, rfl, rfl⟩

theorem State.Untouched.trans {s t u : State} (h : s.Untouched t) (h' : t.Untouched u) :
    s.Untouched u where
  heap := h.heap.trans h'.heap
  natives := h'.natives.trans h.natives
  rest := by rw [← h.rest, ← h'.rest]

theorem readable_untouched (s : State) :
    Readable s.Untouched (fun _ => True) fun _ => True where
  plain _ := trivial
  element _ _ _ := trivial
  field _ _ _ := trivial
  newList ht _ := ⟨⟨ht.heap.trans (Heap.extends_newList _ _), ht.natives, ht.rest⟩, trivial⟩
  newMap ht _ := ⟨⟨ht.heap.trans (Heap.extends_newMap _ _), ht.natives, ht.rest⟩, trivial⟩
  newClosure ht _ _ _ :=
    ⟨⟨ht.heap.trans (Heap.extends_newClosure _ _), ht.natives, ht.rest⟩, trivial⟩
  held _ _ _ := trivial
  newFunction ht _ _ :=
    ⟨⟨ht.heap.trans (Heap.extends_newFunction _ _), ht.natives, ht.rest⟩, trivial⟩

theorem untouched_evaluate {reg : Registry} (hreg : reg.IsBuiltin) {form : Json}
    (hform : form.ReadOnly) (s : State) (depth : Nat) (env : MapRef) :
    Keeps s.Untouched (fun _ => True) Value (fun _ => True) (reg.evaluate depth env form)
      (reg.evaluate depth env form) := by
  induction depth generalizing form with
  | zero => exact fun t o _ h => nomatch h
  | succ depth ih =>
    refine (uniform_keeps _ fun _ _ => trivial).step (readable_untouched s)
      ⟨trivial, trivial, fun _ => trivial⟩ (fun form hform => ih hform) hreg hform.parts
      (fun op hop hwriter => ?_) (fun op hop hunique => ?_) fun op hop hdo => ?_
    · exact absurd (hform.name_mem_readers hop) hwriter
    · exact absurd (hform.name_mem_readers hop) (hunique ▸ Operators.toUnique_not_mem_readers)
    · exact absurd (hform.name_mem_readers hop) (hdo ▸ Operators.do_not_mem_readers)

theorem untouched_text {reg : Registry} (hreg : reg.HasBuiltin) (s : State) (depth : Nat)
    (env : MapRef) (text : String) :
    Keeps s.Untouched (fun _ => True) Value (fun _ => True) (reg.evaluate depth env (.string text))
      (reg.evaluate depth env (.string text)) := by
  induction depth generalizing text with
  | zero => exact fun t o _ h => nomatch h
  | succ depth ih =>
    refine (uniform_keeps _ fun _ _ => trivial).evalText (readable_untouched s) hreg
      (P := fun form => ∃ text, form = .string text) ⟨trivial, trivial, fun _ => trivial⟩ ?_ ?_
    · rintro form ⟨text, rfl⟩
      exact ih text
    · exact fun t _ => ⟨_, rfl⟩

/-- A form that only reads leaves every list, map and function that was in the heap with its
contents, and so the environment, every timer, the windows and the rest of the state, whatever its
outcome. -/
theorem evaluate_readOnly (reg : Registry) (hreg : reg.IsBuiltin) (form : Json)
    (hform : form.ReadOnly) (depth : Nat) (env : MapRef) (s : State) (o : Outcome Value)
    (h : reg.evaluate depth env form s = .ended o) :
    (∀ r, r.index < s.heap.lists.size → o.state.heap.list r = s.heap.list r) ∧
      (∀ r, r.index < s.heap.maps.size → o.state.heap.map r = s.heap.map r) ∧
      (∀ r, r.index < s.heap.closures.size → o.state.heap.closure r = s.heap.closure r) ∧
      (∀ r, r.index < s.heap.functions.size → o.state.heap.function r = s.heap.function r) ∧
      o.state.heap.natives = s.heap.natives ∧ { o.state with heap := s.heap } = s := by
  have hstart : s.Untouched s := ⟨.refl _, rfl, rfl⟩
  obtain ⟨⟨hheap, hnatives, hrest⟩, -⟩ := untouched_evaluate hreg hform s depth env s o hstart h
  exact ⟨fun _ => hheap.list, fun _ => hheap.map, fun _ => hheap.closure, fun _ => hheap.function,
    hnatives, hrest⟩

/-- Reversing a list, reading it at a computed index and making a function that would write leave
the list and the environment as they were. -/
theorem evaluate_reverse_index_function :
    let s : State :=
      { heap := { lists := #[[.int 3, .int 1]]
                  maps := #[.ofList [("xs", .list ⟨0⟩), ("n", .int 1)]] } }
    let form : Json := .array [.object [("reverse", .string "$.xs")], .string "$.xs[$.n] + 1",
      .object [("function", .array [.string "a", .object [("$.n", .int 5)]])]]
    form.ReadOnly ∧ ∃ v t, Registry.builtin.evaluate 5 ⟨0⟩ form s = .ended ⟨.ok v, t⟩ ∧
      t.heap.list ⟨0⟩ = [.int 3, .int 1] ∧ t.heap.map ⟨0⟩ = s.heap.map ⟨0⟩ := by
  intro s form
  have hform : form.ReadOnly := by
    refine .array ?_
    simp only [List.forall_mem_cons, List.not_mem_nil, false_imp_iff, implies_true, and_true]
    exact ⟨.reader rfl (by decide) (.string _), .string _, .function _⟩
  obtain ⟨v, t, h⟩ : ∃ v t, Registry.builtin.evaluate 5 ⟨0⟩ form s = .ended ⟨.ok v, t⟩ :=
    ⟨_, _, rfl⟩
  obtain ⟨hlists, hmaps, -⟩ := evaluate_readOnly .builtin rfl form hform 5 ⟨0⟩ s _ h
  exact ⟨hform, v, t, h, hlists ⟨0⟩ (by decide), hmaps ⟨0⟩ (by decide)⟩

end Sigil
