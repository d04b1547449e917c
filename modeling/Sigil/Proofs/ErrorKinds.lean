import Mathlib
import Sigil.Proofs.Frame

/-!
# The errors of programs

Without functions of the embedder in reach, an evaluation with the built-in operators ends with a
value, a mismatch, a complaint about operands that are there, or a `when` without a match
(`evaluate_error_kinds`). The registry knows every operator that is invoked, and the number of
operands that an operator admits covers all that it uses.

Programs keep functions in the environment and call them later. What they can get at is confined to
a region (`Confined`), so it is enough that no function of the embedder is in the region at the
start.
-/

namespace Sigil

/-! ## Regions without functions of the embedder -/

/-- No function of the embedder is in the region, nor an object with one as a member. -/
def Detached (A : Value → Prop) (h : Heap) : Prop := ∀ v n, A v → ¬ h.Supplies n v

namespace Detached

variable {A : Value → Prop} {h h' : Heap}

theorem of_agrees (hd : Detached A h) (hagree : ∀ v, h.Agrees h' v) : Detached A h' :=
  fun v n hv hn => hd v n hv ((hagree v).supplies hn)

theorem allocate (hd : Detached A h) (he : h.Extends h') (ho : h.KeepsObjects h')
    (hnew : ∀ v n, v.IsNew h → ¬ v.IsNew h' → ¬ h'.Supplies n v) : Detached A h' := by
  intro v n hv hn
  by_cases hv₀ : v.IsNew h
  · by_cases hv' : v.IsNew h'
    · exact Heap.not_supplies_of_isNew hv' n hn
    · exact hnew v n hv₀ hv' hn
  · exact hd v n hv ((he.agrees ho hv₀).supplies hn)

theorem newTimer (hd : Detached A h) (t : Timer) : Detached A (h.newNative (.timer t)).2 := by
  refine hd.allocate (h.extends_newNative _) (h.keepsObjects_newNative _) fun v n hv hv' => ?_
  obtain rfl := Heap.eq_of_isNew_newNative hv hv'
  exact h.not_supplies_newTimer t n

/-- The members of native objects in the region are functions that cancel timers. -/
theorem newMember (hd : Detached A h) {r : NativeRef} {name : String} {f : HostFunction}
    (hr : A (.native r)) (hm : (h.native r).member? r name = some (.function f)) :
    Detached A (h.newFunction f).2 := by
  refine hd.allocate (h.extends_newFunction _) (Heap.keepsObjects_of_eq rfl) fun v n hv hv' hn => ?_
  obtain rfl := Heap.eq_of_isNew_newFunction hv hv'
  exact hd _ n hr (Heap.supplies_of_member hm (h.supplies_newFunction.1 hn))

/-- Supplying functions is not a matter of lists, maps and functions of programs. -/
theorem congr (hd : Detached A h) (hnatives : h'.natives = h.natives)
    (hfunctions : h'.functions = h.functions) : Detached A h' := by
  intro v n hv hn
  refine hd v n hv ?_
  cases hn with
  | function haction => exact .function (by rwa [Heap.function, ← hfunctions])
  | member ho hm haction => exact .member (by rwa [Heap.native, ← hnatives]) hm haction

end Detached

theorem writable_detached (reg : Registry) (held : Nat → Value → Prop) (A : Value → Prop)
    (h₀ : Heap) (hplain : ∀ v : Value, v.isPlain = true → A v) :
    Writable (fun s => Confined reg held A h₀ s.heap ∧ Detached A s.heap) A (reg.BindsIn A) := by
  have hc := writable_confined reg held A h₀ hplain
  exact
    { plain := hc.plain
      element := fun hs => hc.element hs.1
      field := fun hs => hc.field hs.1
      newList := fun hs hxs =>
        ⟨⟨(hc.newList hs.1 hxs).1, hs.2.congr rfl rfl⟩, (hc.newList hs.1 hxs).2⟩
      newMap := fun hs hfields =>
        ⟨⟨(hc.newMap hs.1 hfields).1, hs.2.congr rfl rfl⟩, (hc.newMap hs.1 hfields).2⟩
      newClosure := fun hs henv hregistry hfixed =>
        ⟨⟨(hc.newClosure hs.1 henv hregistry hfixed).1, hs.2.congr rfl rfl⟩,
          (hc.newClosure hs.1 henv hregistry hfixed).2⟩
      held := fun hs => hc.held hs.1
      newFunction := fun hs hr hm =>
        ⟨⟨(hc.newFunction hs.1 hr hm).1, hs.2.newMember hr hm⟩, (hc.newFunction hs.1 hr hm).2⟩
      setList := fun hs hr hxs => ⟨hc.setList hs.1 hr hxs, hs.2.congr rfl rfl⟩
      setMap := fun hs hr hfields => ⟨hc.setMap hs.1 hr hfields, hs.2.congr rfl rfl⟩
      newTimer := fun t hs => ⟨⟨(hc.newTimer t hs.1).1, hs.2.newTimer t⟩, (hc.newTimer t hs.1).2⟩
      cancel := fun timer hs => ⟨hc.cancel timer hs.1, hs.2.of_agrees (Heap.agrees_cancel _ timer)⟩
      sameHeap := fun hs heq => ⟨hc.sameHeap hs.1 heq, heq ▸ hs.2⟩
      captured := fun hs => hc.captured hs.1 }

/-- Bound values that reach no function of the embedder span a region without any. -/
theorem detached_accessible {h : Heap} {reg : Registry} {held : Nat → Value → Prop}
    {roots : Value → Prop}
    (hroots : ∀ a v n, roots a → h.Reaches reg held a v → ¬ h.Supplies n v) :
    Detached (h.Accessible reg held roots) h := by
  rintro v n (hplain | hnew | ⟨a, ha, hreach⟩) hn
  · cases hn <;> cases hplain
  · exact Heap.not_supplies_of_isNew hnew n hn
  · exact hroots a v n ha hreach hn

/-! ## Evaluation -/

/-- The slot of a sequence is there once it was written to, whatever list it finds. -/
theorem Operators.getElem?_writeSlot (xs : List Value) (start : Nat) (v : Value) :
    (writeSlot xs start v)[start]? = some v := by
  have hlen : start < (xs ++ List.replicate (start + 1 - xs.length) Value.null).length := by
    rw [List.length_append, List.length_replicate]
    omega
  rw [writeSlot, List.getElem?_set_self hlen]

theorem EvalError.cases_of_isOwn {e : EvalError} (he : e.isOwn = true) :
    (∃ cause, e = .typeMismatch cause) ∨ (∃ cause, e = .badOperand cause ∧ cause ≠ .missing) ∨
      ∃ n, e = .noMatch n := by
  cases e with
  | typeMismatch cause => exact .inl ⟨cause, rfl⟩
  | badOperand cause =>
    refine .inr (.inl ⟨cause, rfl, ?_⟩)
    rintro rfl
    cases he
  | noMatch n => exact .inr (.inr ⟨n, rfl⟩)
  | host | unknownOperator => cases he

theorem Registry.keeps_run {reg : Registry} (hreg : reg.AllBuiltin) {held : Nat → Value → Prop}
    {A : Value → Prop} {h₀ : Heap} (hplain : ∀ v : Value, v.isPlain = true → A v)
    (hvalues : reg.BindsIn A reg.self) (depth : Nat) (doc form : Json) :
    let run := do reg.evaluate depth (← Env.ofJson doc) form
    Keeps (fun s => Confined reg held A h₀ s.heap ∧ Detached A s.heap) (fun e => e.isOwn = true)
      Value A run run := by
  have hI := writable_detached reg held A h₀ hplain
  have hR := uniform_keeps (fun s => Confined reg held A h₀ s.heap ∧ Detached A s.heap)
    (E := fun e => e.isOwn = true) fun _ he => he
  refine hR.bind (hR.envOfJson hI.toReadable doc) fun env henv => ?_
  refine keeps_evaluate (fun _ he => he) hI hreg (fun r name v hr => hr name v) ?_ depth hvalues
    henv form
  exact fun s r n f hs hr haction => absurd (.function haction) (hs.2 _ n hr)

/-- An evaluation that ends does so with a value or with an error of its own, if no function of the
embedder can be reached from the bound values, neither as such nor as a member of an object. No
operator is unknown, no operand and no slot that is used is missing. A crash is no end: it leaves
the process with neither a value nor an error. -/
theorem evaluate_error_kinds (reg : Registry) (hreg : reg.AllBuiltin) (s : State)
    (hvalues : ∀ name v x n, reg.values.get? name = some v →
      s.heap.Reaches reg (fun _ _ => False) v x → ¬ s.heap.Supplies n x)
    (doc form : Json) (depth : Nat) (o : Outcome Value)
    (h : (do reg.evaluate depth (← Env.ofJson doc) form : EvalM Value) s = .ended o) :
    ((∃ v, o.result = .ok v) ∨ (∃ cause, o.result = .error (.typeMismatch cause)) ∨
      (∃ cause, o.result = .error (.badOperand cause) ∧ cause ≠ .missing) ∨
      ∃ n, o.result = .error (.noMatch n)) ∧
    ∀ xs start v, (Operators.writeSlot xs start v)[start]? = some v := by
  refine ⟨?_, Operators.getElem?_writeSlot⟩
  let roots (v : Value) : Prop := ∃ name, reg.values.get? name = some v
  have hstart := confined_accessible s.heap reg (fun _ _ => False) roots
  have hdetached : Detached (s.heap.Accessible reg (fun _ _ => False) roots) s.heap :=
    detached_accessible fun a v n ⟨name, ha⟩ => hvalues name a v n ha
  have hroots (name : String) (v : Value) (hv : reg.values.get? name = some v) :
      s.heap.Accessible reg (fun _ _ => False) roots v := .inr (.inr ⟨v, ⟨name, hv⟩, .refl⟩)
  obtain ⟨-, hresult⟩ := Registry.keeps_run hreg (fun _ => hstart.plain) hroots depth doc form s o
    ⟨hstart, hdetached⟩ h
  cases hr : o.result with
  | ok v => exact .inl ⟨v, rfl⟩
  | error e =>
    rw [hr] at hresult
    have hcases := EvalError.cases_of_isOwn hresult
    simpa using hcases

/-! ## A sequence that loses its slots -/

namespace LostSlots

/-- The embedder binds `stop` to a list with a function that cancels a timer. -/
def registry : Registry := .only (Bindings.builtin.bindValue "stop" (.list ⟨0⟩))

def start : State :=
  { heap := { lists := #[[.host ⟨0⟩]], functions := #[⟨"timer.cancel", .cancelTimer ⟨0⟩⟩] } }

/-- Replaces the slots while a sequence runs, cancels the timer and divides by zero. -/
def form : Json :=
  .object [("sequence", .array [.object [("$.seqArray", .array [])], .int 1,
    .object [("do", .array [.string "stop", .int 0])], .string "1 / 0"])]

theorem not_supplies {name : String} {v x : Value} {n : Nat}
    (hv : registry.values.get? name = some v)
    (hx : start.heap.Reaches registry (fun _ _ => False) v x) : ¬ start.heap.Supplies n x := by
  have hmem := Fields.mem_entries.2 hv
  obtain rfl : v = .list ⟨0⟩ := (Prod.mk.inj (List.mem_singleton.1 hmem)).2
  have hcases : x = .list ⟨0⟩ ∨ x = .host ⟨0⟩ := by
    refine hx.closed (S := fun v => v = .list ⟨0⟩ ∨ v = .host ⟨0⟩) ?_ (.inl rfl)
    rintro v x (rfl | rfl) hx
    · exact .inr (List.mem_singleton.1 hx.mem_list)
    · cases hx with
      | contains hx => cases hx
      | embedded _ hheld => exact hheld.elim
  intro hn
  rcases hcases with rfl | rfl
  · cases hn
  · cases hn with
    | function haction => cases haction

theorem evaluate_form_error_kinds :
    (∀ name v x n, registry.values.get? name = some v →
      start.heap.Reaches registry (fun _ _ => False) v x → ¬ start.heap.Supplies n x) ∧
      ∃ o, (do registry.evaluate 6 (← Env.ofJson (.object [])) form : EvalM Value) start =
          .ended o ∧
        o.result = .error (.typeMismatch .divisionByZero) ∧
        ((∃ v, o.result = .ok v) ∨ (∃ cause, o.result = .error (.typeMismatch cause)) ∨
          (∃ cause, o.result = .error (.badOperand cause) ∧ cause ≠ .missing) ∨
          ∃ n, o.result = .error (.noMatch n)) := by
  have hvalues (name : String) (v x : Value) (n : Nat) (hv : registry.values.get? name = some v)
      (hx : start.heap.Reaches registry (fun _ _ => False) v x) : ¬ start.heap.Supplies n x :=
    not_supplies hv hx
  have hrun : ((do registry.evaluate 6 (← Env.ofJson (.object [])) form : EvalM Value)
      start).outcome?.map Outcome.result = some (.error (.typeMismatch .divisionByZero)) := by
    cbv
  obtain ⟨o, h, hresult⟩ := Course.exists_of_outcome?_map hrun
  exact ⟨hvalues, o, h, hresult,
    (evaluate_error_kinds registry (fun _ => rfl) start hvalues (.object []) form 6 o h).1⟩

end LostSlots

end Sigil
