import Sigil.Proofs.Frame
import Sigil.Proofs.ReadOnly
import Sigil.Proofs.Sequence

/-!
# Calling a closure

A closure has no scope of its own: a call writes the parameters, `this` and the fixed names into the
environment in which the closure was made, and the body runs there, under the registry under which
the closure was made. Afterwards only `exit` and `this` are taken out again. `call_closure` says
what the body finds and what is left, and where the values of the fixed names come from.
-/

namespace Sigil

open Operators

/-! ## Writing several fields -/

theorem lookup_isSome_iff {α : Type} {name : String} {es : List (String × α)} :
    (es.lookup name).isSome ↔ name ∈ es.map Prod.fst := by
  rw [List.lookup_isSome_iff, List.mem_map]
  simp only [beq_iff_eq, @eq_comm _ name]

namespace Fields

variable {α : Type}

/-- Writes the entries one after the other. -/
def update (f : Fields α) (es : List (String × α)) : Fields α :=
  es.foldl (fun f e => f.set e.1 e.2) f

theorem update_append (f : Fields α) (xs ys : List (String × α)) :
    f.update (xs ++ ys) = (f.update xs).update ys :=
  List.foldl_append

/-- The last entry with a name wins. -/
theorem get?_update (f : Fields α) (es : List (String × α)) (name : String) :
    (f.update es).get? name = (es.reverse.lookup name).or (f.get? name) := by
  induction es generalizing f with
  | nil => rfl
  | cons e rest ih =>
    obtain ⟨key, value⟩ := e
    have hstep : f.update ((key, value) :: rest) = (f.set key value).update rest := rfl
    rw [hstep, ih, get?_set, List.reverse_cons, List.lookup_append, Option.or_assoc]
    by_cases hname : name = key
    · simp [hname]
    · simp [hname, List.lookup_cons, beq_eq_false_iff_ne.2 hname]

end Fields

namespace Heap

theorem setMap_setMap (h : Heap) (r : MapRef) (f g : Fields Value) :
    (h.setMap r f).setMap r g = h.setMap r g := by
  simp [setMap, Array.setIfInBounds_setIfInBounds]

theorem setMap_map (h : Heap) (r : MapRef) : h.setMap r (h.map r) = h := by
  by_cases hr : r.index < h.maps.size
  · simp [setMap, map, Array.getD, Array.setIfInBounds, hr]
  · exact setMap_of_le (Nat.not_lt.1 hr) _

end Heap

/-! ## Entering and leaving the environment -/

namespace State

/-- The state with names bound one after the other. -/
def bindAll (s : State) (env : MapRef) (es : List (String × Value)) : State :=
  { s with heap := s.heap.setMap env ((s.heap.map env).update es) }

/-- The state without a name. -/
def without (s : State) (env : MapRef) (name : String) : State :=
  { s with heap := s.heap.setMap env ((s.heap.map env).erase name) }

theorem bindAll_bindAll (s : State) (env : MapRef) (xs ys : List (String × Value)) :
    (s.bindAll env xs).bindAll env ys = s.bindAll env (xs ++ ys) := by
  by_cases henv : env.index < s.heap.maps.size
  · simp only [bindAll, Heap.map_setMap henv, Heap.setMap_setMap, Fields.update_append]
  · simp only [bindAll, Heap.setMap_of_le (Nat.not_lt.1 henv)]

theorem get?_bindAll {s : State} {env : MapRef} (henv : env.index < s.heap.maps.size)
    (es : List (String × Value)) (name : String) :
    ((s.bindAll env es).heap.map env).get? name =
      (es.reverse.lookup name).or ((s.heap.map env).get? name) := by
  rw [bindAll, Heap.map_setMap henv, Fields.get?_update]

theorem get?_without (s : State) (env : MapRef) (name other : String) :
    ((s.without env name).heap.map env).get? other =
      if other = name then none else (s.heap.map env).get? other := by
  by_cases henv : env.index < s.heap.maps.size
  · rw [without, Heap.map_setMap henv, Fields.get?_erase]
  · have hempty : (s.heap.map env).get? other = none := by simp [Heap.map, Array.getD, henv]
    rw [without, Heap.setMap_of_le (Nat.not_lt.1 henv), hempty, ite_self]

end State

theorem Env.setAll_apply (env : MapRef) (es : List (String × Value)) (s : State) :
    Env.setAll env es s = .ended ⟨.ok (), s.bindAll env es⟩ := by
  induction es generalizing s with
  | nil =>
    have hsame : s.bindAll env [] = s := by
      have hheap : s.heap.setMap env ((s.heap.map env).update []) = s.heap := s.heap.setMap_map env
      rw [State.bindAll, hheap]
    rw [hsame]
    rfl
  | cons e rest ih =>
    have hset : Env.set env e.1 e.2 s = .ended ⟨.ok (), s.bindAll env [e]⟩ := rfl
    refine (EvalM.bind_of_ok hset).trans ((ih _).trans ?_)
    rw [State.bindAll_bindAll, List.singleton_append]

/-- What a call binds, in this order: the parameters as far as there are arguments, `this`, and the
fixed names. -/
def Closure.bindings (c : Closure) (args : List Value) : List (String × Value) :=
  c.params.zip args ++ (Env.this, .map c.env) :: c.fixed

/-- The parameters that get an argument and the fixed names. -/
def Closure.boundNames (c : Closure) (args : List Value) : List String :=
  (c.params.zip args).map Prod.fst ++ c.fixed.map Prod.fst

namespace State

/-- The state in which the body of a closure starts. -/
def entered (s : State) (c : Closure) (args : List Value) : State :=
  s.bindAll c.env (c.bindings args)

/-- The state that a call leaves when the body has ended. -/
def left (s : State) (env : MapRef) : State := (s.without env Env.exit).without env Env.this

theorem get?_left (s : State) (env : MapRef) (name : String) :
    ((s.left env).heap.map env).get? name =
      if name = Env.exit ∨ name = Env.this then none else (s.heap.map env).get? name := by
  rw [left, get?_without, get?_without]
  by_cases hthis : name = Env.this
  · simp [hthis]
  · simp [hthis]

variable {s : State} {c : Closure} (henv : c.env.index < s.heap.maps.size) {args : List Value}
  {name : String} (hthis : name ≠ Env.this)

include henv hthis

theorem get?_entered_of_notMem (hname : name ∉ c.boundNames args) :
    ((s.entered c args).heap.map c.env).get? name = (s.heap.map c.env).get? name := by
  have hnone : (c.bindings args).reverse.lookup name = none := by
    rw [← Option.not_isSome_iff_eq_none, lookup_isSome_iff]
    simpa [Closure.bindings, Closure.boundNames, hthis, not_or, and_comm] using hname
  rw [entered, get?_bindAll henv, hnone, Option.none_or]

theorem exists_get?_entered_of_mem (hname : name ∈ c.boundNames args) :
    ∃ v, ((s.entered c args).heap.map c.env).get? name = some v := by
  have hsome : ((c.bindings args).reverse.lookup name).isSome := by
    rw [lookup_isSome_iff]
    simpa [Closure.bindings, Closure.boundNames, hthis, or_comm] using hname
  obtain ⟨v, hv⟩ := Option.isSome_iff_exists.1 hsome
  exact ⟨v, by rw [entered, get?_bindAll henv, hv, Option.some_or]⟩

end State

/-- A call evaluates the body in the state that it enters, and cleans up however that ends. A crash
passes through. -/
theorem Scope.callClosure_eq (sc : Scope) (c : Closure) (args : List Value) (s : State) :
    sc.callClosure c args s = (sc.evaluator c.registry c.env c.body (s.entered c args)).map fun o =>
      ⟨o.result, o.state.left c.env⟩ := by
  have hthis (s : State) : Env.set c.env Env.this (.map c.env) s =
      .ended ⟨.ok (), s.bindAll c.env [(Env.this, .map c.env)]⟩ := rfl
  have hentered : ((s.bindAll c.env (c.params.zip args)).bindAll c.env
      [(Env.this, .map c.env)]).bindAll c.env c.fixed = s.entered c args := by
    rw [State.bindAll_bindAll, State.bindAll_bindAll]
    rfl
  rw [callClosure, EvalM.bind_of_ok (Env.setAll_apply _ _ _), EvalM.bind_of_ok (hthis _),
    EvalM.bind_of_ok (Env.setAll_apply _ _ _), hentered, EvalM.bind_attempt]
  cases sc.evaluator c.registry c.env c.body (s.entered c args) with
  | crashed | tooDeep => rfl
  | ended o =>
    obtain ⟨result, t⟩ := o
    cases result with
    | ok v => rfl
    | error e => rfl

/-- A body that only reads leaves the environment as the call has set it up. -/
theorem map_of_readOnly_body {reg : Registry} (hreg : reg.IsBuiltin) {c : Closure}
    (hbody : c.body.ReadOnly) {args : List Value} {s : State}
    (henv : c.env.index < s.heap.maps.size) {depth : Nat} {o : Outcome Value}
    (h : reg.evaluate depth c.env c.body (s.entered c args) = .ended o) :
    o.state.heap.map c.env = (s.entered c args).heap.map c.env := by
  obtain ⟨huntouched, -⟩ :=
    untouched_evaluate hreg hbody (s.entered c args) depth c.env _ o (.refl _) h
  refine huntouched.heap.map ?_
  simpa [State.entered, State.bindAll, Heap.setMap] using henv

/-! ## Making a closure -/

/-- The invocation of `function` with parameters, a body and, if they are written, fixed names. -/
def functionForm (params body : Json) (fixed? : Option Json) : Json :=
  .object [("function", .array (params :: body :: fixed?.toList))]

/-- The names that are written as fixed. -/
def fixedNames? : Option Json → Option (List String)
  | some fixed => names? (Operand.ofForm fixed).raw
  | none => some []

/-- The closure has its parameters and its body as they are written, the environment and the
registry under which it was made, and for each fixed name the value that was found there, read as a
path, when it was made. -/
structure Closure.MadeBy (c : Closure) (reg : Registry) (depth : Nat) (env : MapRef)
    (params body : Json) (fixed? : Option Json) (s : State) : Prop where
  env_eq : c.env = env
  registry_eq : c.registry = reg.self
  body_eq : c.body = (Operand.ofForm body).raw
  params_eq : names? (Operand.ofForm params).raw = some c.params
  fixed_names : fixedNames? fixed? = some (c.fixed.map Prod.fst)
  fixed_values : ∀ e ∈ c.fixed, ∃ s' t, s.Untouched s' ∧
    reg.evaluate depth env (.string ("$." ++ e.1)) s' = .ended ⟨.ok e.2, t⟩

theorem names_eq_ok {role : String} {o : Operand} {s t : State} {ns : List String}
    (h : names role o s = .ended ⟨.ok ns, t⟩) : names? o.raw = some ns ∧ t = s := by
  cases hns : names? o.raw with
  | none =>
    rw [names, hns] at h
    cases h
  | some ns' =>
    rw [names, hns] at h
    cases h
    exact ⟨rfl, rfl⟩

section Making

variable {reg : Registry} (hreg : reg.HasBuiltin) {depth : Nat} {env : MapRef} {s t : State}

include hreg

/-- Reading the fixed names one after the other changes nothing in between. -/
theorem captureAll_eq_ok {ns : List String} {fixed : List (String × Value)} {s₀ : State}
    (hs : s₀.Untouched s)
    (h : captureAll (reg.scope (·.evaluate depth) env) ns s = .ended ⟨.ok fixed, t⟩) :
    fixed.map Prod.fst = ns ∧ ∀ e ∈ fixed, ∃ s' t', s₀.Untouched s' ∧
      reg.evaluate depth env (.string ("$." ++ e.1)) s' = .ended ⟨.ok e.2, t'⟩ := by
  induction ns generalizing s fixed with
  | nil =>
    cases h
    exact ⟨rfl, fun _ he => absurd he List.not_mem_nil⟩
  | cons name rest ih =>
    obtain ⟨v, s₁, hv, h⟩ := EvalM.bind_eq_ok.1 h
    obtain ⟨vs, s₂, hvs, h⟩ := EvalM.bind_eq_ok.1 h
    cases h
    have hs₁ := (untouched_text hreg s₀ depth env ("$." ++ name) s _ hs hv).1
    obtain ⟨hnames, hvalues⟩ := ih hs₁ hvs
    exact ⟨congrArg (name :: ·) hnames, List.forall_mem_cons.2 ⟨⟨s, s₁, hs, hv⟩, hvalues⟩⟩

theorem madeBy_of_evaluate {params body : Json} {fixed? : Option Json} {v : Value}
    (h : reg.evaluate (depth + 1) env (functionForm params body fixed?) s = .ended ⟨.ok v, t⟩) :
    ∃ r, v = .closure r ∧ r.index < t.heap.closures.size ∧
      (t.heap.closure r).MadeBy reg depth env params body fixed? s := by
  have hrun : reg.evaluate (depth + 1) env (functionForm params body fixed?) =
      function (reg.scope (·.evaluate depth) env)
        (.ofForm params :: .ofForm body :: fixed?.toList.map .ofForm) := by
    have hop := hreg "function" _ Registry.operator?_function
    cases fixed? with
    | none => exact Registry.evaluate_invocation hop rfl depth env
    | some fixed => exact Registry.evaluate_invocation hop rfl depth env
  rw [hrun] at h
  obtain ⟨ps, s₁, hparams, hrest⟩ := EvalM.bind_eq_ok.1 h
  obtain ⟨hps, rfl⟩ := names_eq_ok hparams
  obtain ⟨fixed, s₂, hfixed, hmake⟩ := EvalM.bind_eq_ok.1 hrest
  have hcaptured : fixedNames? fixed? = some (fixed.map Prod.fst) ∧
      ∀ e ∈ fixed, ∃ s' t', s₁.Untouched s' ∧
        reg.evaluate depth env (.string ("$." ++ e.1)) s' = .ended ⟨.ok e.2, t'⟩ := by
    cases fixed? with
    | none =>
      cases hfixed
      exact ⟨rfl, fun _ he => absurd he List.not_mem_nil⟩
    | some form =>
      obtain ⟨ns, s₁', hns, hcapture⟩ := EvalM.bind_eq_ok.1 hfixed
      obtain ⟨hwritten, rfl⟩ := names_eq_ok hns
      obtain ⟨rfl, hvalues⟩ := captureAll_eq_ok hreg (.refl _) hcapture
      exact ⟨hwritten, hvalues⟩
  let c : Closure :=
    { params := ps, body := (Operand.ofForm body).raw, fixed, env, registry := reg.self }
  obtain ⟨rfl, rfl⟩ : Value.closure (s₂.heap.newClosure c).1 = v ∧
      { s₂ with heap := (s₂.heap.newClosure c).2 } = t := by
    cases hmake
    exact ⟨rfl, rfl⟩
  refine ⟨_, rfl, by simp [Heap.newClosure], ?_⟩
  rw [Heap.closure_newClosure]
  exact ⟨rfl, rfl, rfl, hps, hcaptured.1, hcaptured.2⟩

end Making

/-! ## Closures stay -/

/-- The functions of the embedder leave the closures alone. -/
def Registry.KeepsClosures (reg : Registry) : Prop :=
  ∀ f ∈ reg.functions, ∀ vs s o, f vs s = .ended o →
    s.heap.closures.toList <+: o.state.heap.closures.toList

theorem writable_closures (h : Heap) :
    Writable (fun s => h.closures.toList <+: s.heap.closures.toList) (fun _ => True)
      fun _ => True where
  plain _ := trivial
  element _ _ _ := trivial
  field _ _ _ := trivial
  newList hs _ := ⟨hs, trivial⟩
  newMap hs _ := ⟨hs, trivial⟩
  newClosure hs _ _ _ := ⟨hs.trans (Heap.extends_newClosure _ _).closures, trivial⟩
  held _ _ _ := trivial
  newFunction hs _ _ := ⟨hs, trivial⟩
  setList hs _ _ := hs
  setMap hs _ _ := hs
  newTimer _ hs := ⟨hs, trivial⟩
  cancel timer hs := by
    unfold Heap.cancel
    split
    · exact hs
    · exact hs
  sameHeap hs he := he ▸ hs
  captured _ _ := ⟨trivial, .inl trivial, fun _ _ => trivial⟩

theorem closure_evaluate {reg : Registry} (hreg : reg.AllBuiltin) (hhost : reg.KeepsClosures)
    {depth : Nat} {env : MapRef} {form : Json} {s : State} {o : Outcome Value}
    (h : reg.evaluate depth env form s = .ended o) {r : ClosureRef}
    (hr : r.index < s.heap.closures.size) : o.state.heap.closure r = s.heap.closure r := by
  have hkeeps := keeps_evaluate (E := fun _ => True) (fun _ _ => trivial)
    (writable_closures s.heap) hreg (fun _ _ _ _ _ => trivial)
    (fun _ _ _ f _ _ _ hf vs _ t o ht h =>
      ⟨ht.trans (hhost f (List.mem_of_getElem? hf) vs t o h), resultIn_true _⟩)
    depth trivial trivial form s o List.prefix_rfl h
  exact Heap.getD_of_isPrefix hkeeps.1 hr _ _

/-! ## The whole call -/

/-- A call of a closure evaluates its body under the registry and in the environment in which the
closure was made, after binding the parameters as far as there are arguments, then `this`, then the
fixed names, where the last binding of a name wins. However the body ends, and whatever it has done,
`exit` and `this` are gone afterwards. If the body only reads, all other names have the bindings
that they had before the call, or those of the call if it bound them. The values of the fixed names
are those that were found in the environment when `function` made the closure, and no evaluation
changes a closure. -/
theorem call_closure (reg : Registry) (depth : Nat) (env : MapRef) (r : ClosureRef)
    (args : List Value) (s : State) (henv : (s.heap.closure r).env.index < s.heap.maps.size) :
    let c := s.heap.closure r
    let entry := s.entered c args
    ((reg.scope (·.evaluate depth) env).call (.closure r) args s =
      ((reg.select c.registry).evaluate depth c.env c.body entry).map fun o =>
        ⟨o.result, o.state.left c.env⟩) ∧
    (∀ name, (entry.heap.map c.env).get? name =
      ((c.bindings args).reverse.lookup name).or ((s.heap.map c.env).get? name)) ∧
    (∀ o, (reg.scope (·.evaluate depth) env).call (.closure r) args s = .ended o →
      (o.state.heap.map c.env).get? Env.exit = none ∧
      (o.state.heap.map c.env).get? Env.this = none ∧
      ((reg.select c.registry).IsBuiltin → c.body.ReadOnly →
        ∀ name, name ≠ Env.exit → name ≠ Env.this →
        (name ∉ c.boundNames args →
          (o.state.heap.map c.env).get? name = (s.heap.map c.env).get? name) ∧
        (name ∈ c.boundNames args → ∃ v, (entry.heap.map c.env).get? name = some v ∧
          (o.state.heap.map c.env).get? name = some v))) ∧
    (reg.HasBuiltin → ∀ depth env params body fixed? s v t,
      reg.evaluate (depth + 1) env (functionForm params body fixed?) s = .ended ⟨.ok v, t⟩ →
      ∃ r, v = .closure r ∧ r.index < t.heap.closures.size ∧
        (t.heap.closure r).MadeBy reg depth env params body fixed? s) ∧
    (reg.AllBuiltin → reg.KeepsClosures → ∀ depth env form s o,
      reg.evaluate depth env form s = .ended o → ∀ r : ClosureRef, r.index < s.heap.closures.size →
        o.state.heap.closure r = s.heap.closure r) := by
  intro c entry
  have hcall : (reg.scope (·.evaluate depth) env).call (.closure r) args s =
      ((reg.select c.registry).evaluate depth c.env c.body entry).map fun o =>
        ⟨o.result, o.state.left c.env⟩ :=
    Scope.callClosure_eq _ c args s
  refine ⟨hcall, State.get?_bindAll henv _, fun o ho => ?_, ?_, ?_⟩
  · rw [hcall] at ho
    obtain ⟨out, hbody, rfl⟩ := Course.map_eq_ended ho
    refine ⟨by simp [State.get?_left], by simp [State.get?_left], ?_⟩
    intro hreg hread name hexit hthis
    have hname : ((out.state.left c.env).heap.map c.env).get? name =
        (entry.heap.map c.env).get? name := by
      rw [State.get?_left, if_neg (by simp [hexit, hthis]),
        map_of_readOnly_body hreg hread henv hbody]
    refine ⟨fun hnot => ?_, fun hmem => ?_⟩
    · exact hname.trans (State.get?_entered_of_notMem henv hthis hnot)
    · obtain ⟨v, hv⟩ := State.exists_get?_entered_of_mem henv hthis hmem
      exact ⟨v, hv, hname.trans hv⟩
  · intro hreg depth env params body fixed? s v t h
    exact madeBy_of_evaluate hreg h
  · intro hreg hhost depth env form s o h r hr
    exact closure_evaluate hreg hhost h hr

namespace Adding

/-- Adds `n`, which was `1` when the closure was made, to `x`. -/
def adder : Closure :=
  { params := ["x", "y"], body := .string "$.x + $.n", fixed := [("n", .int 1)], env := ⟨0⟩,
    registry := ⟨0⟩ }

def entry : State :=
  { heap := { maps := #[.ofList [("n", .int 100), ("z", .int 9), ("exit", .bool true)]]
              closures := #[adder] } }

/-- There is an argument for `x`, and none for `y`. -/
theorem call_adder :
    ∃ o, (Registry.builtin.scope (·.evaluate 5) ⟨0⟩).call (.closure ⟨0⟩) [.int 5]
        entry = .ended o ∧ o.result = .ok (.int 6) ∧
      (o.state.heap.map ⟨0⟩).get? "x" = some (.int 5) ∧
      (o.state.heap.map ⟨0⟩).get? "n" = some (.int 1) ∧
      (o.state.heap.map ⟨0⟩).get? "y" = none ∧
      (o.state.heap.map ⟨0⟩).get? "z" = some (.int 9) ∧
      (o.state.heap.map ⟨0⟩).get? Env.exit = none := by
  obtain ⟨-, -, hafter, -, -⟩ := call_closure .builtin 5 ⟨0⟩ ⟨0⟩ [.int 5] entry (by decide)
  have hrun : ((Registry.builtin.scope (·.evaluate 5) ⟨0⟩).call (.closure ⟨0⟩)
      [.int 5] entry).outcome?.map Outcome.result = some (.ok (.int 6)) := by
    rfl
  obtain ⟨o, ho, hresult⟩ := Course.exists_of_outcome?_map hrun
  obtain ⟨hexit, -, hnames⟩ := hafter o ho
  have hkept (name : String) := hnames rfl (.string _) name
  obtain ⟨x, hx, hx'⟩ := (hkept "x" (by decide) (by decide)).2 (by decide)
  obtain ⟨n, hn, hn'⟩ := (hkept "n" (by decide) (by decide)).2 (by decide)
  obtain rfl : Value.int 5 = x := Option.some.inj hx
  obtain rfl : Value.int 1 = n := Option.some.inj hn
  exact ⟨o, ho, hresult, hx', hn', (hkept "y" (by decide) (by decide)).1 (by decide),
    (hkept "z" (by decide) (by decide)).1 (by decide), hexit⟩

end Adding

end Sigil
