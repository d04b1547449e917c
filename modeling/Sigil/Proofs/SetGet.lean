import Sigil.Operators.Host
import Sigil.Proofs.PathWalk
import Sigil.Proofs.Termination

/-!
# Writing to a path and reading it back

What `set` writes to a path of names, `get` reads back, if the names lead through lists, maps and
what native objects hold to a slot, and the way there does not read that slot (`get_after_set`).
Containers may be shared and may contain themselves. Where a value on the way is missing or null,
`set` leaves everything as it was, and `get` gives its default.

What is written into a document of a native object, such as the identifier in the result of an
insert, is lost: it is built anew whenever it is read (`get_after_set_insertedId`).
-/

namespace Sigil

def setForm (path : String) (form : Json) : Json := .object [("set", .array [.string path, form])]

def getForm (path : String) : Json := .object [("get", .string path)]

/-- Reads with a default. -/
def getOrForm (path fallback : String) : Json :=
  .object [("get", .array [.string path, .string fallback])]

namespace Registry

variable {reg : Registry} (hreg : reg.HasBuiltin) {depth : Nat} {env : MapRef} {path : String}

include hreg

theorem evaluate_setForm {form : Json} {s t : State} {v : Value}
    (hform : reg.evaluate depth env (Operand.ofForm form).raw s = .ended ⟨.ok v, t⟩) :
    reg.evaluate (depth + 1) env (setForm path form) s =
      ((reg.scope (·.evaluate depth) env).resolve (.ofForm (.string path)) >>= fun location =>
        Operators.writeAt v location >>= fun _ => pure .null) t := by
  have hset := hreg "set" _ operator?_set
  simp only [evaluate, step, setForm, objectRole_of_operator? hset, invoke, hset]
  refine (EvalM.bind_of_ok rfl).trans ?_
  exact EvalM.bind_of_ok hform

theorem evaluate_getForm {s t : State} {key parent : Value} {x? : Option Value}
    (hresolve : (reg.scope (·.evaluate depth) env).resolve (.ofForm (.string path)) s =
      .ended ⟨.ok (.slot key parent), t⟩)
    (hread : parent.member t.heap key = x?.map (·, t.heap)) :
    reg.evaluate (depth + 1) env (getForm path) s = .ended ⟨.ok (x?.getD .null), t⟩ := by
  have hget := hreg "get" _ operator?_get
  have hmember : EvalM.member? parent key t = .ended ⟨.ok x?, t⟩ := by
    cases x? with
    | none => exact EvalM.member?_of_none hread
    | some x => exact EvalM.member?_of_some hread
  have hnull (v : Value) : (if v.isNull then Value.null else v) = v := by
    cases v <;> rfl
  simp only [evaluate, step, getForm, objectRole_of_operator? hget, invoke, hget]
  refine (EvalM.bind_of_ok rfl).trans ?_
  refine (EvalM.bind_of_ok rfl).trans ?_
  refine (EvalM.bind_of_ok hresolve).trans ?_
  refine (EvalM.bind_of_ok hmember).trans ?_
  refine (EvalM.bind_of_ok rfl).trans ?_
  simp only [hnull]
  rfl

theorem evaluate_getOrForm {fallback : String} {s t u : State} {result : Except EvalError Value}
    (hfallback : reg.evaluate depth env (Operand.ofForm (.string fallback)).raw s =
      .ended ⟨result, t⟩)
    (hresolve : (reg.scope (·.evaluate depth) env).resolve (.ofForm (.string path)) t =
      .ended ⟨.ok .notFound, u⟩) :
    ∃ w, reg.evaluate (depth + 1) env (getOrForm path fallback) s = .ended ⟨result, w⟩ := by
  have hget := hreg "get" _ operator?_get
  simp only [evaluate, step, getOrForm, objectRole_of_operator? hget, invoke, hget]
  cases result with
  | error e => exact ⟨t, (EvalM.bind_of_ok rfl).trans (EvalM.bind_of_error hfallback)⟩
  | ok v =>
    refine ⟨u, (EvalM.bind_of_ok rfl).trans ?_⟩
    refine (EvalM.bind_of_ok hfallback).trans ?_
    exact EvalM.bind_of_ok hresolve

end Registry

theorem writeAt_slot {name : String} (hname : Path.IsName name) {parent : Value} {slot : Slot}
    (hslot : parent.slot? name = some slot) (s : State) (v : Value) :
    Operators.writeAt v (.slot (.string name) parent) s =
      .ended ⟨.ok (), { s with heap := slot.write s.heap v }⟩ := by
  have hne : name ≠ "" := by
    rintro rfl
    exact hname.1 rfl
  have hparent : parent.isNull = false := by
    cases parent with
    | null => cases hslot
    | _ => rfl
  have hassign := Value.assign_of_slot? hslot s.heap v
  simp only [Operators.writeAt, Value.string?, Option.some.injEq, hne, hparent, decide_false,
    Bool.or_self, Bool.false_eq_true, if_false]
  refine (EvalM.bind_of_ok rfl).trans ?_
  rw [hassign]
  rfl

/-- Where a walk gets lost, it does so after every text was evaluated. -/
theorem Heap.Lost.of_untouched {s t : State} {v : Value} {names : List String}
    (hlost : s.heap.Lost v names) (h : s.Untouched t) : t.heap.Lost v names :=
  hlost.extend h.heap h.natives

/-- The operators that reach outside have other names than the built-in ones. -/
theorem Registry.hasBuiltin_host : Registry.host.HasBuiltin := by
  intro name op hop
  have hnames : ∀ op ∈ Operators.builtin, ∀ name ∈ op.name :: op.aliases,
      ∀ other ∈ Operators.host, other.isNamed name = false := by decide
  have hnamed : op.isNamed name = true :=
    List.find?_some (p := fun o : Operator => o.isNamed name) hop
  have hname : name ∈ op.name :: op.aliases := by
    rw [Operator.isNamed, Bool.or_eq_true, beq_iff_eq, List.contains_iff_mem] at hnamed
    rcases hnamed with rfl | hmem
    · exact List.mem_cons_self
    · exact List.mem_cons_of_mem _ hmem
  have hother := hnames op (Registry.IsBuiltin.mem rfl hop) name hname
  have hoperators : host.operators = Operators.host.reverse ++ builtin.operators :=
    operators_registerAll Bindings.builtin Operators.host
  rw [operator?, hoperators, List.find?_append]
  rw [List.find?_eq_none.2 (by simpa using hother)]
  exact hop

/-- Writing to what a walk itself has allocated leaves all that was there before. -/
theorem untouched_write {s : State} {v parent : Value} {names : List String} {k : Heap}
    (hwalks : s.heap.Walks v names parent k) (hnew : parent.IsNew s.heap) {name : String}
    {slot : Slot} (hslot : parent.slot? name = some slot) (x : Value) :
    s.Untouched { s with heap := slot.write k x } where
  heap := (untouched_of_walks hwalks).heap.write hnew hslot x
  natives := (slot.natives_write k x).trans (untouched_of_walks hwalks).natives
  rest := rfl

section Paths

variable {reg : Registry} (hreg : reg.HasBuiltin) (hvalues : reg.values = .empty)
  {front : List String} {target : String} (hnames : ∀ name ∈ front ++ [target], Path.IsName name)
  {env : MapRef}

include hreg hvalues hnames

theorem evaluate_setForm_of_walks {form : Json} {depth : Nat} {s t : State} {v parent : Value}
    {k : Heap} {slot : Slot}
    (hform : reg.evaluate depth env (Operand.ofForm form).raw s = .ended ⟨.ok v, t⟩)
    (hwalks : t.heap.Walks (.map env) front parent k) (hslot : parent.slot? target = some slot) :
    reg.evaluate (depth + 1) env (setForm (Path.ofNames (front ++ [target])) form) s =
      .ended ⟨.ok .null, { t with heap := slot.write k v }⟩ := by
  rw [Registry.evaluate_setForm hreg hform]
  refine (EvalM.bind_of_ok (Scope.resolve_of_walks _ hvalues hnames hwalks)).trans ?_
  exact EvalM.bind_of_ok (writeAt_slot (hnames target (by simp)) hslot _ v)

theorem evaluate_getForm_of_walks {s : State} {parent : Value} {k : Heap} {x? : Option Value}
    (hwalks : s.heap.Walks (.map env) front parent k)
    (hread : parent.member k (.string target) = x?.map (·, k)) (depth : Nat) :
    reg.evaluate (depth + 1) env (getForm (Path.ofNames (front ++ [target]))) s =
      .ended ⟨.ok (x?.getD .null), { s with heap := k }⟩ :=
  Registry.evaluate_getForm hreg (Scope.resolve_of_walks _ hvalues hnames hwalks) hread

/-- From a document of a native object, a copy of what the document has is read. -/
theorem evaluate_getForm_of_leadsIntoDocument {s : State} {j : Json}
    (hinto : s.heap.LeadsIntoDocument (.map env) j front) (hj : j ≠ .null) (depth : Nat) :
    ∃ x w, reg.evaluate (depth + 1) env (getForm (Path.ofNames (front ++ [target]))) s =
        .ended ⟨.ok x, w⟩ ∧ Value.IsCopy s.heap w.heap ((j.member? target).getD .null) x := by
  obtain ⟨parent, k, hwalks, hcopy⟩ := hinto.walks hj
  obtain ⟨x?, hread, hx⟩ := hcopy.member_getD target
  exact ⟨_, _, evaluate_getForm_of_walks hreg hvalues hnames hwalks hread depth, hx⟩

theorem evaluate_getOrForm_of_lost {s : State} (hlost : s.heap.Lost (.map env) front)
    {fallback : String} {depth : Nat} (hdepth : fallback.toList.length + 1 < depth) :
    ∃ o w, reg.evaluate depth env (Operand.ofForm (.string fallback)).raw s = .ended o ∧
      reg.evaluate (depth + 1) env (getOrForm (Path.ofNames (front ++ [target])) fallback) s =
        .ended ⟨o.result, w⟩ := by
  obtain ⟨o, ho⟩ := exists_evaluate_operand hreg hdepth env s
  have huntouched := (untouched_text hreg s depth env _ s o (.refl s) ho).1
  obtain ⟨u, hresolve, -⟩ := Scope.resolve_of_lost (reg.scope (·.evaluate depth) env) hvalues
    hnames (hlost.of_untouched huntouched)
  obtain ⟨w, hget⟩ := Registry.evaluate_getOrForm hreg ho hresolve
  exact ⟨o, w, ho, hget⟩

end Paths

/-- Writing to a path of names and reading it back, after the value was evaluated. -/
theorem get_after_set (reg : Registry) (hreg : reg.HasBuiltin) (hvalues : reg.values = .empty)
    (front : List String) (target : String)
    (hnames : ∀ name ∈ front ++ [target], Path.IsName name) (form : Json) (depth : Nat)
    (env : MapRef) (s t : State) (v : Value)
    (hform : reg.evaluate depth env (Operand.ofForm form).raw s = .ended ⟨.ok v, t⟩) :
    let path := Path.ofNames (front ++ [target])
    (∀ slots parent slot, t.heap.Leads (.map env) front slots parent →
      parent.slot? target = some slot → slot.InHeap t.heap → slot ∉ slots →
        ∃ u, reg.evaluate (depth + 1) env (setForm path form) s = .ended ⟨.ok .null, u⟩ ∧
          u = { t with heap := slot.write t.heap v } ∧
          ∀ depth', reg.evaluate (depth' + 1) env (getForm path) u = .ended ⟨.ok v, u⟩) ∧
    (∀ parent slot k, t.heap.Walks (.map env) front parent k → parent.slot? target = some slot →
      (∃ slots, t.heap.Leads (.map env) front slots parent) ∨
        ∃ j u, t.heap.LeadsIntoDocument (.map env) j front ∧
          reg.evaluate (depth + 1) env (setForm path form) s = .ended ⟨.ok .null, u⟩ ∧
          t.Untouched u ∧
          ∀ depth', ∃ x w, reg.evaluate (depth' + 1) env (getForm path) u = .ended ⟨.ok x, w⟩ ∧
            Value.IsCopy u.heap w.heap ((j.member? target).getD .null) x) ∧
    (t.heap.Lost (.map env) front →
      ∃ u, reg.evaluate (depth + 1) env (setForm path form) s = .ended ⟨.ok .null, u⟩ ∧
        t.Untouched u ∧
        ∀ (fallback : String) (depth' : Nat), fallback.toList.length + 1 < depth' →
          ∃ o w, reg.evaluate depth' env (Operand.ofForm (.string fallback)).raw u = .ended o ∧
            reg.evaluate (depth' + 1) env (getOrForm path fallback) u = .ended ⟨o.result, w⟩) := by
  intro path
  refine ⟨fun slots parent slot hleads hslot hin hnot => ?_, fun parent slot k hwalks hslot => ?_,
    fun hlost => ?_⟩
  · -- The walk is the same as before, and the slot at its end has the new value.
    have hread : parent.member (slot.write t.heap v) (.string target) =
        (some v).map (·, slot.write t.heap v) := by
      rw [Value.member_of_slot? hslot, Slot.read_write_self hin]
    exact ⟨_, evaluate_setForm_of_walks hreg hvalues hnames hform hleads.walks hslot, rfl,
      evaluate_getForm_of_walks hreg hvalues hnames (hleads.write hnot v).walks hread⟩
  · have hcontainer := Value.isContainer_of_slot? hslot
    rcases hwalks.arrives hcontainer with ⟨-, hleads⟩ | ⟨j, hinto, hcopy⟩
    · exact .inl hleads
    · have hu := untouched_write hwalks (hcopy.isNew hcontainer) hslot v
      have hj : j ≠ .null := fun hj => by
        rw [hcopy.eq_null_iff.2 hj] at hcontainer
        cases hcontainer
      refine .inr ⟨j, _, hinto, evaluate_setForm_of_walks hreg hvalues hnames hform hwalks hslot,
        hu, fun depth' => ?_⟩
      exact evaluate_getForm_of_leadsIntoDocument hreg hvalues hnames
        (hinto.extend hu.heap hu.natives) hj depth'
  · obtain ⟨u, hwalk, hu⟩ := Scope.resolve_of_lost (reg.scope (·.evaluate depth) env) hvalues
      hnames hlost
    refine ⟨u, ?_, hu, fun fallback depth' hdepth => ?_⟩
    · rw [Registry.evaluate_setForm hreg hform]
      exact EvalM.bind_of_ok hwalk
    · exact evaluate_getOrForm_of_lost hreg hvalues hnames (hlost.of_untouched hu) hdepth

/-! ## Three ways -/

namespace Round

/-- The environment is the first element of its list `xs`, and `r` is the result of an insert. -/
def start : State :=
  { heap :=
    { lists := #[[.map ⟨0⟩, .int 7]]
      maps := #[.ofList [("xs", .list ⟨0⟩), ("r", .native ⟨0⟩)]]
      natives := #[.insertResult (.object [("x", .int 1)])] } }

def form : Json := .array [.int 8]

/-- The state after the form has made its list. -/
def grown : State :=
  { start with heap := { start.heap with lists := #[[.map ⟨0⟩, .int 7], [.int 8]] } }

/-- The slots that are read on the way to the second element of `xs`, through `xs` itself. -/
def slots : List Slot := [.field ⟨0⟩ "xs", .element ⟨0⟩ 0, .field ⟨0⟩ "xs"]

theorem leads : grown.heap.Leads (.map ⟨0⟩) ["xs", "0", "xs"] slots (.list ⟨0⟩) :=
  .step rfl rfl rfl (.step rfl rfl rfl (.step rfl rfl rfl (.here _)))

theorem inHeap : Slot.InHeap grown.heap (.element ⟨0⟩ 1) := by
  simp [Slot.InHeap, Heap.list, grown]

theorem walks : ∃ k, grown.heap.Walks (.map ⟨0⟩) ["r", "insertedId"] (.map ⟨1⟩) k :=
  ⟨_, .step rfl rfl (.step rfl rfl (.here _ _))⟩

theorem not_leads {slots : List Slot} {v : Value} :
    ¬ grown.heap.Leads (.map ⟨0⟩) ["r", "insertedId"] slots v := by
  intro hleads
  cases hleads with
  | step hslot hread _ hrest =>
    obtain rfl := Option.some.inj hslot
    obtain rfl := Option.some.inj hread
    cases hrest with
    | step hslot => cases hslot
    | held hm => cases hm

theorem lost : grown.heap.Lost (.map ⟨0⟩) ["ys"] :=
  .missing [] (fun _ => by simp [Value.IsNew, grown, start]) rfl

theorem get_after_set_form :
    Path.ofNames ["xs", "0", "xs", "+1"] = "$.xs.0.xs.+1" ∧
      Path.ofNames ["r", "insertedId", "x"] = "$.r.insertedId.x" ∧
      Path.ofNames ["ys", "0"] = "$.ys.0" ∧
      (∃ u, Registry.host.evaluate 3 ⟨0⟩ (setForm "$.xs.0.xs.+1" form) start =
          .ended ⟨.ok .null, u⟩ ∧ ∀ depth, Registry.host.evaluate (depth + 1) ⟨0⟩
            (getForm "$.xs.0.xs.+1") u = .ended ⟨.ok (.list ⟨1⟩), u⟩) ∧
      (∃ u, Registry.host.evaluate 3 ⟨0⟩ (setForm "$.r.insertedId.x" form) start =
          .ended ⟨.ok .null, u⟩ ∧ grown.Untouched u) ∧
      ∃ u, Registry.host.evaluate 3 ⟨0⟩ (setForm "$.ys.0" form) start = .ended ⟨.ok .null, u⟩ ∧
        grown.Untouched u ∧ ∃ o w, Registry.host.evaluate 3 ⟨0⟩ (.string "d") u = .ended o ∧
          Registry.host.evaluate 4 ⟨0⟩ (getOrForm "$.ys.0" "d") u = .ended ⟨o.result, w⟩ := by
  have hform : Registry.host.evaluate 2 ⟨0⟩ (Operand.ofForm form).raw start =
      .ended ⟨.ok (.list ⟨1⟩), grown⟩ := rfl
  have hround := get_after_set .host Registry.hasBuiltin_host rfl ["xs", "0", "xs"] "+1"
    (by simp [Path.IsName, Path.isNameChar]) form 2 ⟨0⟩ start grown (.list ⟨1⟩) hform
  have hinto := get_after_set .host Registry.hasBuiltin_host rfl ["r", "insertedId"] "x"
    (by simp [Path.IsName, Path.isNameChar]) form 2 ⟨0⟩ start grown (.list ⟨1⟩) hform
  have hlost := get_after_set .host Registry.hasBuiltin_host rfl ["ys"] "0"
    (by simp [Path.IsName, Path.isNameChar]) form 2 ⟨0⟩ start grown (.list ⟨1⟩) hform
  refine ⟨rfl, rfl, rfl, ?_, ?_, ?_⟩
  · obtain ⟨u, hset, -, hget⟩ := hround.1 slots _ _ leads rfl inHeap (by decide)
    exact ⟨u, hset, hget⟩
  · obtain ⟨k, hwalks⟩ := walks
    rcases hinto.2.1 _ _ k hwalks rfl with ⟨slots, hleads⟩ | ⟨j, u, -, hset, hu, -⟩
    · exact absurd hleads not_leads
    · exact ⟨u, hset, hu⟩
  · obtain ⟨u, hset, hu, hget⟩ := hlost.2.2 lost
    exact ⟨u, hset, hu, hget "d" 3 (by decide)⟩

/-- The state after a write to a copy of the identifier. -/
def copied : State :=
  { start with heap := { start.heap with maps := start.heap.maps.push (.ofList [("x", .int 5)]) } }

/-- The way leads through values that are not null to a map, but the write is not read back: the
identifier of the inserted document is built anew each time. -/
theorem get_after_set_insertedId :
    let path := Path.ofNames ["r", "insertedId", "x"]
    let run : EvalM (Value × Value) := do
      let written ← Registry.builtin.evaluate 2 ⟨0⟩ (setForm path (.int 5))
      let found ← Registry.builtin.evaluate 2 ⟨0⟩ (getForm path)
      return (written, found)
    (∃ k, start.heap.Walks (.map ⟨0⟩) ["r", "insertedId"] (.map ⟨1⟩) k) ∧
      (run start).outcome?.map Outcome.result = some (.ok (.null, .int 1)) := by
  refine ⟨⟨_, .step rfl rfl (.step rfl rfl (.here _ _))⟩, ?_⟩
  have hset : Registry.builtin.evaluate 2 ⟨0⟩
      (setForm (Path.ofNames ["r", "insertedId", "x"]) (.int 5)) start =
        .ended ⟨.ok .null, copied⟩ := rfl
  have hget : (Registry.builtin.evaluate 2 ⟨0⟩ (getForm (Path.ofNames ["r", "insertedId", "x"]))
      copied).outcome?.map Outcome.result = some (.ok (.int 1)) := rfl
  obtain ⟨⟨_, u⟩, hget, rfl⟩ := Course.exists_of_outcome?_map hget
  rw [EvalM.bind_of_ok hset, EvalM.bind_of_ok hget]
  rfl

end Round

end Sigil
