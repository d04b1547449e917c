import Sigil.Proofs.Frame
import Sigil.Proofs.IterationPasses
import Sigil.Proofs.ReadOnly

/-!
# What the iterations over a sequence do

`forEach`, `filter` and `map` share one loop. `Iterated` says how it can end, whatever the body
does to the variables of the loop or to the source: the source fails, the body fails or is refused
at some element, or there was a pass for each element that the source had at the start.
`evaluate_iteration` says that evaluation ends just so, and what holds in each pass and afterwards.
-/

namespace Sigil

open Operators

inductive Mode where
  | forEach
  | filter
  | map
deriving DecidableEq, Repr

namespace Mode

def name : Mode → String
  | .forEach => "forEach"
  | .filter => "filter"
  | .map => "map"

def run : Mode → Scope → List Operand → EvalM Value
  | .forEach => Operators.forEach
  | .filter => Operators.filter
  | .map => Operators.map

def keep (body : Operand) : Mode → Value → Value → EvalM (List Value)
  | .forEach => fun _ _ => pure []
  | .filter => keepIf body
  | .map => fun _ result => pure [result]

def finish : Mode → List Value → EvalM Value
  | .forEach => fun _ => pure .null
  | .filter | .map => EvalM.newList

/-- The invocation with a source, a body and, if it is written, a variable. -/
def form (m : Mode) (source body : Json) (var? : Option String) : Json :=
  .object [(m.name, .array (source :: body :: (var?.map Json.string).toList))]

theorem run_eq (m : Mode) : m.run = iteration m.name (fun body => m.keep body) m.finish := by
  cases m <;> rfl

theorem operator?_name (m : Mode) : Registry.builtin.operator? m.name =
    some { name := m.name, arity := .between 2 (some 3), run := m.run } := by
  cases m <;> rfl

/-! ## Collecting -/

/-- A test has to give a truth value. -/
def refuse (body : Operand) : Mode → Value → State → Option EvalError
  | .filter, v, t =>
    if v.bool?.isSome then none else some (.typeMismatch (.predicate body.raw (v.kind t.heap)))
  | _, _, _ => none

def collector (body : Operand) (m : Mode) : Collector where
  refuse := m.refuse body
  kept x v _ := match m with
    | .forEach => []
    | .filter => if v.bool? = some true then [x] else []
    | .map => [v]
  next _ t := t
  heap_next _ _ := rfl

theorem collector_describes (body : Operand) (m : Mode) :
    (m.collector body).Describes (m.keep body) := by
  intro x v t
  cases m with
  | forEach => rfl
  | map => rfl
  | filter =>
    cases v with
    | bool b => cases b <;> rfl
    | _ => rfl

/-- What the passes of an iteration yield. -/
def yield : Mode → List Pass → List Value
  | .forEach, _ => []
  | .filter, passes => (passes.filter fun r => r.result.bool? = some true).map Pass.item
  | .map, passes => passes.map Pass.result

theorem flatMap_keptIn (body : Operand) (m : Mode) (passes : List Pass) :
    passes.flatMap (m.collector body).keptIn = m.yield passes := by
  induction passes with
  | nil => cases m <;> rfl
  | cons r rest ih =>
    rw [List.flatMap_cons, ih]
    cases m with
    | forEach => rfl
    | map => rfl
    | filter =>
      by_cases htrue : r.result.bool? = some true
      · simp [yield, Collector.keptIn, collector, htrue]
      · simp [yield, Collector.keptIn, collector, htrue]

/-- The end of an iteration that went through all its passes. If there was any, the variables are
removed. -/
def outcome (m : Mode) (env : MapRef) (var : String) (passes : List Pass) (t : State) :
    Outcome Value :=
  let u := if passes.isEmpty then t else t.unbound env var
  match m with
  | .forEach => ⟨.ok .null, u⟩
  | .filter | .map =>
    ⟨.ok (.list (u.heap.newList (m.yield passes)).1),
      { u with heap := (u.heap.newList (m.yield passes)).2 }⟩

theorem finish_yield (m : Mode) (env : MapRef) (var : String) (passes : List Pass) (t : State) :
    m.finish (m.yield passes) (if passes.isEmpty then t else t.unbound env var) =
      .ended (m.outcome env var passes t) := by
  cases m <;> rfl

end Mode

/-- The variable of an iteration as it is written after the body, or else `item`. -/
def itemName : Option String → String
  | some var => String.ofList (normalizePath var.toList)
  | none => Env.item

/-- How an iteration can end. -/
inductive Iterated (sc : Scope) (m : Mode) (source body : Operand) (var : String) (s : State) :
    Outcome Value → Prop where
  | source {e : EvalError} {t : State} : sc.eval source s = .ended ⟨.error e, t⟩ →
      Iterated sc m source body var s ⟨.error e, t⟩
  | broken {v x : Value} {s₁ t u : State} {passes : List Pass} {rest : List Value} {e : EvalError} :
      sc.eval source s = .ended ⟨.ok v, s₁⟩ →
      Passes sc var body (m.collector body) 0 s₁ passes t →
      v.toElements s₁.heap = passes.map Pass.item ++ x :: rest →
      BreaksOff sc var body (m.collector body) passes.length x t e u →
      Iterated sc m source body var s ⟨.error e, u⟩
  | done {v : Value} {s₁ t : State} {passes : List Pass} :
      sc.eval source s = .ended ⟨.ok v, s₁⟩ →
      Passes sc var body (m.collector body) 0 s₁ passes t →
      passes.map Pass.item = v.toElements s₁.heap →
      Iterated sc m source body var s (m.outcome sc.env var passes t)

section Running

variable {sc : Scope} {m : Mode} {source body : Operand} {args : List Operand} {var : String}
  {s s₁ t : State} {v : Value} (hvar : itemVariable m.name args s = .ended ⟨.ok var, s⟩)

include hvar

theorem Mode.run_of_source (hsource : sc.eval source s = .ended ⟨.ok v, s₁⟩) :
    m.run sc (source :: body :: args) s =
      (iterate sc var body (m.keep body) 0 (v.toElements s₁.heap) >>= fun kept =>
        unbindAfter sc.env var (v.toElements s₁.heap) >>= fun _ => m.finish kept) s₁ := by
  rw [m.run_eq]
  exact (EvalM.bind_of_ok hvar).trans ((EvalM.bind_of_ok hsource).trans (EvalM.bind_of_ok rfl))

/-- An iteration whose loop went through is over once the variables are removed. -/
theorem Mode.run_of_passes {passes : List Pass} (hsource : sc.eval source s = .ended ⟨.ok v, s₁⟩)
    (hpasses : Passes sc var body (m.collector body) 0 s₁ passes t)
    (hitems : passes.map Pass.item = v.toElements s₁.heap) :
    m.run sc (source :: body :: args) s = .ended (m.outcome sc.env var passes t) := by
  have hloop := (iterate_eq_ok (m.collector_describes body)).2 ⟨passes, hpasses, hitems, rfl⟩
  have hunbind : unbindAfter sc.env var (v.toElements s₁.heap) t =
      .ended ⟨.ok (), if passes.isEmpty then t else t.unbound sc.env var⟩ := by
    rw [← hitems, unbindAfter, List.isEmpty_map]
    cases passes <;> rfl
  rw [m.flatMap_keptIn body] at hloop
  rw [m.run_of_source hvar hsource, EvalM.bind_of_ok hloop, EvalM.bind_of_ok hunbind,
    m.finish_yield]

theorem Mode.run_eq_ended_iff (o : Outcome Value) :
    m.run sc (source :: body :: args) s = .ended o ↔ Iterated sc m source body var s o := by
  constructor
  · intro h
    cases hsource : sc.eval source s with
    | crashed =>
      rw [m.run_eq] at h
      cases ((EvalM.bind_of_ok hvar).trans (EvalM.bind_of_crashed hsource)).symm.trans h
    | tooDeep =>
      rw [m.run_eq] at h
      cases ((EvalM.bind_of_ok hvar).trans (EvalM.bind_of_tooDeep hsource)).symm.trans h
    | ended r =>
      obtain ⟨result, s₁⟩ := r
      cases result with
      | error e =>
        rw [m.run_eq] at h
        obtain rfl := Course.ended.inj
          (((EvalM.bind_of_ok hvar).trans (EvalM.bind_of_error hsource)).symm.trans h)
        exact .source hsource
      | ok v =>
        cases hloop : iterate sc var body (m.keep body) 0 (v.toElements s₁.heap) s₁ with
        | crashed =>
          rw [m.run_of_source hvar hsource, EvalM.bind_of_crashed hloop] at h
          cases h
        | tooDeep =>
          rw [m.run_of_source hvar hsource, EvalM.bind_of_tooDeep hloop] at h
          cases h
        | ended r =>
          obtain ⟨result, t⟩ := r
          cases result with
          | error e =>
            rw [m.run_of_source hvar hsource, EvalM.bind_of_error hloop] at h
            obtain rfl := Course.ended.inj h
            obtain ⟨passes, t', x, rest, hpasses, hitems, hbreaks⟩ :=
              (iterate_eq_error (m.collector_describes body)).1 hloop
            rw [Nat.zero_add] at hbreaks
            exact .broken hsource hpasses hitems hbreaks
          | ok kept =>
            obtain ⟨passes, hpasses, hitems, -⟩ :=
              (iterate_eq_ok (m.collector_describes body)).1 hloop
            rw [m.run_of_passes hvar hsource hpasses hitems] at h
            obtain rfl := Course.ended.inj h
            exact .done hsource hpasses hitems
  · intro h
    cases h with
    | source hsource =>
      rw [m.run_eq]
      exact (EvalM.bind_of_ok hvar).trans (EvalM.bind_of_error hsource)
    | broken hsource hpasses hitems hbreaks =>
      rw [← Nat.zero_add (List.length _)] at hbreaks
      have hloop := (iterate_eq_error (m.collector_describes body)).2
        ⟨_, _, _, _, hpasses, hitems, hbreaks⟩
      rw [m.run_of_source hvar hsource, EvalM.bind_of_error hloop]
    | done hsource hpasses hitems => exact m.run_of_passes hvar hsource hpasses hitems

end Running

theorem Registry.evaluate_iterationForm {reg : Registry} (hreg : reg.HasBuiltin) (m : Mode)
    (source body : Json) (var? : Option String) (depth : Nat) (env : MapRef) (s : State)
    (o : Outcome Value) :
    reg.evaluate (depth + 1) env (m.form source body var?) s = .ended o ↔
      Iterated (reg.scope (·.evaluate depth) env) m (.ofForm source) (.ofForm body)
        (itemName var?) s o := by
  have hop := hreg m.name _ m.operator?_name
  cases var? with
  | none =>
    rw [Mode.form, evaluate_invocation hop rfl]
    exact m.run_eq_ended_iff rfl o
  | some var =>
    rw [Mode.form, evaluate_invocation hop rfl]
    exact m.run_eq_ended_iff rfl o

/-! ## What an iteration returns and leaves behind -/

/-- What an iteration returns after its passes. -/
def Mode.Returns : Mode → List Pass → Outcome Value → Prop
  | .forEach, _, o => o.result = .ok .null
  | .filter, passes, o => (∀ r ∈ passes, ∃ b, r.result = .bool b) ∧
      ∃ l, o.result = .ok (.list l) ∧
        o.state.heap.list l = (passes.filter fun r => r.result.bool? = some true).map Pass.item
  | .map, passes, o =>
      ∃ l, o.result = .ok (.list l) ∧ o.state.heap.list l = passes.map Pass.result

theorem Passes.accepted {sc : Scope} {var : String} {body : Operand} {c : Collector} {i : Nat}
    {s t : State} {passes : List Pass} (hpasses : Passes sc var body c i s passes t) :
    ∀ r ∈ passes, c.refuse r.result r.finish = none := by
  induction hpasses with
  | done => simp
  | next _ _ haccept _ ih => exact List.forall_mem_cons.2 ⟨haccept, ih⟩

theorem Mode.returns_outcome {sc : Scope} {m : Mode} {body : Operand} {var : String} {i : Nat}
    {s t : State} {passes : List Pass}
    (hpasses : Passes sc var body (m.collector body) i s passes t) :
    m.Returns passes (m.outcome sc.env var passes t) := by
  cases m with
  | forEach => rfl
  | map => exact ⟨_, rfl, Heap.list_newList _ _⟩
  | filter =>
    refine ⟨fun r hr => ?_, _, rfl, Heap.list_newList _ _⟩
    have haccept := hpasses.accepted r hr
    cases hresult : r.result with
    | bool b => exact ⟨b, rfl⟩
    | _ => simp [collector, refuse, hresult, Value.bool?] at haccept

/-- Making the list of results does not touch the environment. -/
theorem Mode.map_outcome (m : Mode) (env : MapRef) (var : String) (passes : List Pass) (t : State) :
    (m.outcome env var passes t).state.heap.map env =
      (if passes.isEmpty then t else t.unbound env var).heap.map env := by
  cases m <;> rfl

/-- With the built-in operators, an iteration ends exactly as `Iterated` says: with the error of the
source, with the first error after a pass for each element before, or after a pass for each element
that the source had when it was evaluated, in order. Each pass finds its element in the variable and
its position in `index`, whatever the passes before did to them. After all passes, `map` returns the
results, `filter` the elements whose result was true, and `forEach` null; the variable and `index`
are gone, unless there was no pass at all, which leaves the environment as the source did. -/
theorem evaluate_iteration (reg : Registry) (hreg : reg.AllBuiltin) (hhost : reg.KeepsHeap)
    (m : Mode) (source body : Json) (var? : Option String) (hvar : itemName var? ≠ Env.index)
    (depth : Nat) (env : MapRef) (s : State) (henv : env.index < s.heap.maps.size) :
    let sc := reg.scope (·.evaluate depth) env
    (∀ o, reg.evaluate (depth + 1) env (m.form source body var?) s = .ended o ↔
      Iterated sc m (.ofForm source) (.ofForm body) (itemName var?) s o) ∧
    ∀ v s₁ passes t, sc.eval (.ofForm source) s = .ended ⟨.ok v, s₁⟩ →
      Passes sc (itemName var?) (.ofForm body) (m.collector (.ofForm body)) 0 s₁ passes t →
      (∀ (k : Nat) (r : Pass), passes[k]? = some r →
        (r.start.heap.map env).get? (itemName var?) = some r.item ∧
        (r.start.heap.map env).get? Env.index = some (.int (Int64.ofNat k))) ∧
      m.Returns passes (m.outcome env (itemName var?) passes t) ∧
      (passes ≠ [] →
        ((m.outcome env (itemName var?) passes t).state.heap.map env).get? (itemName var?) = none ∧
        ((m.outcome env (itemName var?) passes t).state.heap.map env).get? Env.index = none) ∧
      (passes = [] →
        (m.outcome env (itemName var?) passes t).state.heap.map env = s₁.heap.map env) := by
  intro sc
  have hbuiltin := hreg.isBuiltin.hasBuiltin
  refine ⟨fun o => reg.evaluate_iterationForm hbuiltin m source body var? depth env s o, ?_⟩
  intro v s₁ passes t hsource hpasses
  have hgrows (form : Json) := growsHeap_evaluate hreg hhost depth env form
  have henv₁ := Nat.lt_of_lt_of_le henv (hgrows _ s _ hsource).maps
  obtain ⟨henv', hreads⟩ := hpasses.reads hvar hgrows henv₁
  refine ⟨fun k r hr => ?_, m.returns_outcome hpasses, fun hne => ?_, ?_⟩
  · have hstart := hreads k r hr
    rwa [Nat.zero_add] at hstart
  · have hunbound : (t.unbound env (itemName var?)).heap.map env = _ := State.map_unbound henv' _
    rw [m.map_outcome, if_neg (by simpa using hne), hunbound]
    exact ⟨by simp, by simp⟩
  · rintro rfl
    cases hpasses
    rw [m.map_outcome]
    rfl

namespace Interference

/-- The list `xs` of `1` and `2`. -/
def entry : State :=
  { heap := { lists := #[[.int 1, .int 2]], maps := #[.ofList [("xs", .list ⟨0⟩)]] } }

/-- Drops the source, overwrites the position and gives the element. -/
def body : Json :=
  .object [("sequence", .array [.object [("$.xs", .null)], .object [("$.index", .int 9)],
    .string "$.item"])]

theorem evaluate_map_body :
    ∃ o, Registry.builtin.evaluate 5 ⟨0⟩ (Mode.map.form (.string "$.xs") body none) entry =
        .ended o ∧
      o.result = .ok (.list ⟨2⟩) ∧ o.state.heap.list ⟨2⟩ = [.int 1, .int 2] ∧
      Iterated (Registry.builtin.scope (·.evaluate 4) ⟨0⟩) .map
        (.ofForm (.string "$.xs")) (.ofForm body) Env.item entry o := by
  have hrun : (Registry.builtin.evaluate 5 ⟨0⟩ (Mode.map.form (.string "$.xs") body none)
      entry).outcome?.map (fun o => (o.result.toOption, o.state.heap.list ⟨2⟩)) =
        some (some (.list ⟨2⟩), [.int 1, .int 2]) := by
    decide +kernel
  obtain ⟨o, ho, hresult⟩ := Course.exists_of_outcome?_map hrun
  obtain ⟨hended, -⟩ := evaluate_iteration .builtin (fun _ => rfl)
    (fun f hf => absurd hf List.not_mem_nil) .map (.string "$.xs") body none (by decide) 4 ⟨0⟩ entry
    (by decide)
  exact ⟨o, ho, Outcome.result_eq_ok (Prod.mk.inj hresult).1, (Prod.mk.inj hresult).2,
    (hended o).1 ho⟩

end Interference

end Sigil
