import Mathlib.Data.Nat.Find
import Sigil.Proofs.BranchChoice
import Sigil.Proofs.ListIteration
import Sigil.Proofs.SequenceSlots

/-!
# Forms after an exit or an error

A sequence stops at the first form that fails or leaves `exit` true, and what is written behind that
form has no effect (`evaluate_sequence_active`). The flag is a variable like any other, so it does
not matter where it was set: `ExitsWithin` follows an exit from inside nested sequences, branches
and iterations out to the sequence that it stops.
-/

namespace Sigil

open Operators

/-- The forms are evaluated one after the other without a failure, each with its result recorded. -/
inductive Ran (sc : Scope) (start : Nat) : List Operand → State → State → Prop where
  | nil {s : State} : Ran sc start [] s s
  | cons {form : Operand} {rest : List Operand} {s t u : State} {v : Value} :
      sc.eval form s = .ended ⟨.ok v, t⟩ → Ran sc start rest (t.recorded sc.env start v) u →
      Ran sc start (form :: rest) s u

/-- Evaluated in the state, the form fails or leaves `exit` true. -/
def Stops (sc : Scope) (form : Operand) (s : State) : Prop :=
  (∃ e t, sc.eval form s = .ended ⟨.error e, t⟩) ∨
    ∃ v t, sc.eval form s = .ended ⟨.ok v, t⟩ ∧ Env.Exited sc.env t

/-- In a sequence that starts in the state, the last of the forms fails or leaves `exit` true. -/
def StopsAtLast (sc : Scope) (s : State) (forms : List Json) : Prop :=
  ∃ init form t, forms = init ++ [form] ∧
    Ran sc (Env.slotValues sc.env s).length (init.map .ofForm) (s.withSlots sc.env) t ∧
    Stops sc (.ofForm form) t

/-- The shortest prefix of the forms that stops at its last form, or all of them if there is none.
-/
def IsActive (sc : Scope) (s : State) (forms part : List Json) : Prop :=
  (part <+: forms ∧ StopsAtLast sc s part ∧
    ∀ other, other <+: forms → StopsAtLast sc s other → part.length ≤ other.length) ∨
  part = forms ∧ ∀ other, other <+: forms → ¬StopsAtLast sc s other

/-! ## What comes after a form that stops -/

section Running

variable {sc : Scope} {start : Nat} {init : List Operand} {form : Operand} {s t : State}

theorem Ran.runForms_append (hran : Ran sc start init s t) (hstops : Stops sc form t)
    (rest : List Operand) :
    runForms sc start (init ++ form :: rest) s = runForms sc start (init ++ [form]) s := by
  induction hran with
  | nil =>
    rcases hstops with ⟨e, u, heval⟩ | ⟨v, u, heval, hexit⟩
    · exact (runForms_of_error heval).trans (runForms_of_error heval).symm
    · exact (runForms_of_exited heval hexit).trans (runForms_of_exited heval hexit).symm
  | @cons first others s t u v heval _ ih =>
    simp only [List.cons_append]
    by_cases hexit : Env.Exited sc.env t
    · exact (runForms_of_exited heval hexit).trans (runForms_of_exited heval hexit).symm
    · rw [runForms_of_not_exited heval hexit, runForms_of_not_exited heval hexit]
      exact ih hstops

/-- A form that leaves `exit` true ends the run well, and the flag stays; so does one before it. -/
theorem Ran.runForms_of_exit (hran : Ran sc start init s t) {v : Value} {u : State}
    (heval : sc.eval form t = .ended ⟨.ok v, u⟩) (hexit : Env.Exited sc.env u)
    (rest : List Operand) :
    ∃ w, runForms sc start (init ++ form :: rest) s = .ended ⟨.ok (), w⟩ ∧ Env.Exited sc.env w := by
  induction hran with
  | nil => exact ⟨_, runForms_of_exited heval hexit, (u.exited_recorded start v).2 hexit⟩
  | @cons first others s t _ v' hfirst _ ih =>
    by_cases hearly : Env.Exited sc.env t
    · exact ⟨_, runForms_of_exited hfirst hearly, (t.exited_recorded start v').2 hearly⟩
    · obtain ⟨w, hrun, hw⟩ := ih heval
      exact ⟨w, (runForms_of_not_exited hfirst hearly).trans hrun, hw⟩

end Running

section Sequence

variable {sc : Scope} {s : State} {forms part other : List Json}

theorem StopsAtLast.sequence_append (hpart : StopsAtLast sc s part) (rest : List Json) :
    sequence sc ((part ++ rest).map .ofForm) s = sequence sc (part.map .ofForm) s := by
  obtain ⟨init, form, t, rfl, hran, hstops⟩ := hpart
  have hrun := hran.runForms_append hstops (rest.map .ofForm)
  simp only [List.append_assoc, List.map_append, List.map_cons, List.map_nil,
    List.singleton_append] at hrun ⊢
  rw [sequence_eq, sequence_eq, hrun]

theorem exists_isActive (sc : Scope) (s : State) (forms : List Json) :
    ∃ part, IsActive sc s forms part := by
  classical
  by_cases hstop : ∃ n, StopsAtLast sc s (forms.take n)
  · refine ⟨forms.take (Nat.find hstop), .inl ⟨List.take_prefix _ _, Nat.find_spec hstop, ?_⟩⟩
    intro other hother hlast
    rw [List.prefix_iff_eq_take.1 hother] at hlast
    exact (List.length_take_le _ _).trans (Nat.find_min' hstop hlast)
  · refine ⟨forms, .inr ⟨rfl, fun other hother hlast => hstop ⟨other.length, ?_⟩⟩⟩
    rwa [← List.prefix_iff_eq_take.1 hother]

theorem IsActive.eq (hpart : IsActive sc s forms part) (hother : IsActive sc s forms other) :
    other = part := by
  rcases hpart with ⟨hfront, hlast, hleast⟩ | ⟨rfl, hnone⟩
  · rcases hother with ⟨hfront', hlast', hleast'⟩ | ⟨-, hnone⟩
    · have hlength := Nat.le_antisymm (hleast' part hfront hlast) (hleast other hfront' hlast')
      rw [List.prefix_iff_eq_take.1 hfront', hlength, ← List.prefix_iff_eq_take.1 hfront]
    · exact absurd hlast (hnone part hfront)
  · rcases hother with ⟨hfront', hlast', -⟩ | ⟨rfl, -⟩
    · exact absurd hlast' (hnone other hfront')
    · rfl

theorem IsActive.sequence_eq (hpart : IsActive sc s forms part) :
    sequence sc (forms.map .ofForm) s = sequence sc (part.map .ofForm) s := by
  rcases hpart with ⟨⟨rest, rfl⟩, hlast, -⟩ | ⟨rfl, -⟩
  · exact hlast.sequence_append rest
  · rfl

end Sequence

/-! ## Exits from inside -/

theorem Env.lt_size_of_exited {env : MapRef} {s : State} (hexit : Env.Exited env s) :
    env.index < s.heap.maps.size :=
  Heap.lt_size_of_mem_map (Fields.mem_entries.2 hexit)

section Passes

variable {sc : Scope} {var : String} {body : Operand} {c : Collector} {i : Nat} {s u : State}

theorem State.exited_bound {env : MapRef} (hvar : var ≠ Env.exit) (x : Value)
    (hexit : Env.Exited env s) : Env.Exited env (s.bound env var i x) := by
  refine Eq.trans ?_ hexit
  rw [State.map_bound (Env.lt_size_of_exited hexit)]
  simp [hvar.symm, show Env.exit ≠ Env.index by decide]

theorem State.exited_unbound {env : MapRef} (hvar : var ≠ Env.exit)
    (hexit : Env.Exited env s) : Env.Exited env (s.unbound env var) := by
  refine Eq.trans ?_ hexit
  rw [State.map_unbound (Env.lt_size_of_exited hexit)]
  simp [hvar.symm, show Env.exit ≠ Env.index by decide]

theorem Collector.exited_next {env : MapRef} (c : Collector) (v : Value)
    (hexit : Env.Exited env s) : Env.Exited env (c.next v s) := by
  rwa [Env.Exited, c.heap_next]

/-- Passes that leave the flag as it is bring it to the end. -/
theorem Passes.exited {passes : List Pass} (hpasses : Passes sc var body c i s passes u)
    (hvar : var ≠ Env.exit) (hs : Env.Exited sc.env s)
    (hkeep : ∀ r ∈ passes, Env.Exited sc.env r.start → Env.Exited sc.env r.finish) :
    Env.Exited sc.env u := by
  induction hpasses with
  | done => exact hs
  | @next i s u r rest hstart _ _ _ ih =>
    rw [List.forall_mem_cons] at hkeep
    have hfinish := hkeep.1 (hstart ▸ State.exited_bound hvar r.item hs)
    exact ih (c.exited_next r.result hfinish) hkeep.2

theorem Passes.exited_of_pass {before after : List Pass} {r : Pass}
    (hpasses : Passes sc var body c i s (before ++ r :: after) u) (hvar : var ≠ Env.exit)
    (hr : ∀ v t, sc.eval body r.start = .ended ⟨.ok v, t⟩ → Env.Exited sc.env t)
    (hafter : ∀ r' ∈ after, Env.Exited sc.env r'.start → Env.Exited sc.env r'.finish) :
    Env.Exited sc.env u := by
  induction before generalizing i s with
  | nil =>
    cases hpasses with
    | next _ heval _ hrest => exact hrest.exited hvar (c.exited_next _ (hr _ _ heval)) hafter
  | cons first before ih =>
    cases hpasses with
    | next _ _ _ hrest => exact ih hrest

end Passes

theorem Mode.exists_ok_outcome (m : Mode) (env : MapRef) (var : String) (passes : List Pass)
    (t : State) : ∃ v, (m.outcome env var passes t).result = .ok v := by
  cases m <;> exact ⟨_, rfl⟩

/-- Evaluating the form in the state, to the given depth, sets `exit`: the form itself leaves it
true, or it is a sequence, a choice or an iteration and a form inside does. The passes of an
iteration go on after that, so they have to leave the flag alone. -/
inductive ExitsWithin (reg : Registry) (env : MapRef) : Nat → Json → State → Prop where
  | here {depth : Nat} {form : Json} {s t : State} {v : Value} :
      reg.evaluate depth env form s = .ended ⟨.ok v, t⟩ → Env.Exited env t →
      ExitsWithin reg env depth form s
  | sequence {depth : Nat} {init rest : List Json} {form : Json} {s t : State} :
      Ran (reg.scope (·.evaluate depth) env) (Env.slotValues env s).length (init.map .ofForm)
        (s.withSlots env) t →
      ExitsWithin reg env depth (Operand.ofForm form).raw t →
      ExitsWithin reg env (depth + 1) (sequenceForm (init ++ form :: rest)) s
  | branch {depth n : Nat} {args : List Json} {c b : Operand} {s t u : State} :
      AllFalse (reg.scope (·.evaluate depth) env) (args.map .ofForm) s n t →
      (args.map Operand.ofForm)[2 * n]? = some c →
      reg.evaluate depth env c.raw t = .ended ⟨.ok (.bool true), u⟩ →
      (args.map Operand.ofForm)[2 * n + 1]? = some b → ExitsWithin reg env depth b.raw u →
      ExitsWithin reg env (depth + 1) (whenForm args) s
  | iteration {depth : Nat} {m : Mode} {source body : Json} {var? : Option String} {v : Value}
      {s s₁ u : State} {before after : List Pass} {r : Pass} : itemName var? ≠ Env.exit →
      reg.evaluate depth env (Operand.ofForm source).raw s = .ended ⟨.ok v, s₁⟩ →
      Passes (reg.scope (·.evaluate depth) env) (itemName var?) (.ofForm body)
        (m.collector (.ofForm body)) 0 s₁ (before ++ r :: after) u →
      (before ++ r :: after).map Pass.item = v.toElements s₁.heap →
      ExitsWithin reg env depth (Operand.ofForm body).raw r.start →
      (∀ r' ∈ after, Env.Exited env r'.start → Env.Exited env r'.finish) →
      ExitsWithin reg env (depth + 1) (m.form source body var?) s

/-- An exit from inside comes out. -/
theorem ExitsWithin.exists_evaluate {reg : Registry} (hreg : reg.HasBuiltin) {env : MapRef}
    {depth : Nat} {form : Json} {s : State} (hexits : ExitsWithin reg env depth form s) :
    ∃ v t, reg.evaluate depth env form s = .ended ⟨.ok v, t⟩ ∧ Env.Exited env t := by
  induction hexits with
  | here heval hexit => exact ⟨_, _, heval, hexit⟩
  | @sequence depth init rest form s t hran _ ih =>
    obtain ⟨v, u, heval, hexit⟩ := ih
    obtain ⟨w, hrun, hw⟩ := hran.runForms_of_exit heval hexit (rest.map .ofForm)
    rw [reg.evaluate_sequenceForm hreg, sequence_eq, List.map_append, List.map_cons]
    exact ⟨_, _, congrArg (Course.map · _) hrun, (State.exited_released w _).2 hw⟩
  | branch hfalse hc htrue hb _ ih =>
    obtain ⟨v, u, heval, hexit⟩ := ih
    rw [reg.evaluate_whenForm hreg]
    exact ⟨v, u, when_of_decided (.branch hfalse hc htrue hb heval), hexit⟩
  | @iteration depth m source body var? v s s₁ u before after r hvar hsource hpasses hitems _
      hafter ih =>
    obtain ⟨v', t, heval, hexit⟩ := ih
    have hend : Env.Exited env u := by
      refine hpasses.exited_of_pass hvar (fun v'' t' heval' => ?_) hafter
      cases heval.symm.trans heval'
      exact hexit
    have hdone := (reg.evaluate_iterationForm hreg m source body var? depth env s _).2
      (.done hsource hpasses hitems)
    obtain ⟨w, hw⟩ := m.exists_ok_outcome env (itemName var?) (before ++ r :: after) u
    refine ⟨w, (m.outcome env (itemName var?) (before ++ r :: after) u).state,
      hdone.trans (by rw [← hw]; rfl), ?_⟩
    rw [Env.Exited, m.map_outcome, if_neg (by simp)]
    exact State.exited_unbound hvar hend

/-- A sequence has the outcome and the final state of its active part: the shortest prefix whose
last form fails or leaves `exit` true, or all forms if there is none. What is written behind a form
that fails or leaves `exit` true, wherever inside that form the exit was raised, has no effect. -/
theorem evaluate_sequence_active (reg : Registry) (hreg : reg.HasBuiltin) (depth : Nat)
    (env : MapRef) (forms : List Json) (s : State) :
    let sc := reg.scope (·.evaluate depth) env
    (∃ part, (∀ other, IsActive sc s forms other ↔ other = part) ∧
      reg.evaluate (depth + 1) env (sequenceForm forms) s =
        reg.evaluate (depth + 1) env (sequenceForm part) s) ∧
    (∀ part rest, StopsAtLast sc s part →
      reg.evaluate (depth + 1) env (sequenceForm (part ++ rest)) s =
        reg.evaluate (depth + 1) env (sequenceForm part) s) ∧
    ∀ init form rest t,
      Ran sc (Env.slotValues env s).length (init.map .ofForm) (s.withSlots env) t →
      ExitsWithin reg env depth (Operand.ofForm form).raw t →
      StopsAtLast sc s (init ++ [form]) ∧
        reg.evaluate (depth + 1) env (sequenceForm (init ++ form :: rest)) s =
          reg.evaluate (depth + 1) env (sequenceForm (init ++ [form])) s := by
  intro sc
  have hbehind (part rest : List Json) (hpart : StopsAtLast sc s part) :
      reg.evaluate (depth + 1) env (sequenceForm (part ++ rest)) s =
        reg.evaluate (depth + 1) env (sequenceForm part) s := by
    rw [reg.evaluate_sequenceForm hreg, reg.evaluate_sequenceForm hreg]
    exact hpart.sequence_append rest
  refine ⟨?_, hbehind, ?_⟩
  · obtain ⟨part, hpart⟩ := exists_isActive sc s forms
    refine ⟨part, fun other => ⟨hpart.eq, fun h => h ▸ hpart⟩, ?_⟩
    rw [reg.evaluate_sequenceForm hreg, reg.evaluate_sequenceForm hreg]
    exact hpart.sequence_eq
  · intro init form rest t hran hexits
    have hstops : StopsAtLast sc s (init ++ [form]) :=
      ⟨init, form, t, rfl, hran, .inr (hexits.exists_evaluate hreg)⟩
    refine ⟨hstops, ?_⟩
    rw [List.append_cons]
    exact hbehind _ rest hstops

namespace Outward

def entry : State := { heap := { maps := #[.empty] } }

def exitForm : Json := .object [("exit", .array [])]

def loop : Json := Mode.forEach.form (.array [.null]) exitForm none

/-- The exit is in an iteration in a sequence in a branch. -/
def choice : Json :=
  whenForm [.bool true, sequenceForm [loop, .object [("$.inner", .bool true)]]]

def after : Json := .object [("$.after", .bool true)]

theorem evaluate_exitForm (depth : Nat) (s : State) :
    Registry.builtin.evaluate (depth + 1) ⟨0⟩ exitForm s =
      .ended ⟨.ok .null, s.withVar ⟨0⟩ Env.exit (.bool true)⟩ := rfl

theorem exited_withVar {s : State} (henv : 0 < s.heap.maps.size) :
    Env.Exited ⟨0⟩ (s.withVar ⟨0⟩ Env.exit (.bool true)) := by
  rw [Env.Exited, State.withVar, Heap.map_setMap henv]
  simp

theorem loop_exits {s : State} (henv : 0 < s.heap.maps.size) :
    ExitsWithin .builtin ⟨0⟩ 3 loop s := by
  let s₁ : State := { s with heap := (s.heap.newList [.null]).2 }
  let start := s₁.bound ⟨0⟩ Env.item 0 .null
  have hstart : 0 < start.heap.maps.size := by rwa [State.maps_size_bound]
  have hexit : Env.Exited ⟨0⟩ (start.withVar ⟨0⟩ Env.exit (.bool true)) := exited_withVar hstart
  let r : Pass := ⟨.null, start, .null, start.withVar ⟨0⟩ Env.exit (.bool true)⟩
  have hpasses : Passes (Registry.builtin.scope (·.evaluate 2) ⟨0⟩) (itemName none)
      (.ofForm exitForm) (Mode.forEach.collector (.ofForm exitForm)) 0 s₁ ([] ++ r :: [])
      r.finish :=
    .next rfl (evaluate_exitForm 1 start) rfl .done
  exact .iteration (by decide) rfl hpasses (Heap.list_newList s.heap [.null]).symm
    (.here (evaluate_exitForm 1 start) hexit) (by simp)

theorem choice_exits {s : State} (henv : 0 < s.heap.maps.size) :
    ExitsWithin .builtin ⟨0⟩ 5 choice s := by
  have hloop : ExitsWithin .builtin ⟨0⟩ 3 loop (s.withSlots ⟨0⟩) :=
    loop_exits (by rwa [State.maps_size_withSlots])
  have hinner : ExitsWithin .builtin ⟨0⟩ 4
      (sequenceForm ([] ++ loop :: [.object [("$.inner", .bool true)]])) s := .sequence .nil hloop
  exact .branch .start rfl rfl rfl hinner

theorem evaluate_forms_active :
    ∃ o, Registry.builtin.evaluate 6 ⟨0⟩ (sequenceForm [.int 1, choice, after]) entry = .ended o ∧
      o.result = .ok (.int 1) ∧
      Registry.builtin.evaluate 6 ⟨0⟩ (sequenceForm [.int 1, choice]) entry = .ended o := by
  have hrun : (Registry.builtin.evaluate 6 ⟨0⟩ (sequenceForm [.int 1, choice, after])
      entry).outcome?.map Outcome.result = some (.ok (.int 1)) := by
    rfl
  obtain ⟨o, ho, hresult⟩ := Course.exists_of_outcome?_map hrun
  have hactive := evaluate_sequence_active .builtin (Registry.IsBuiltin.hasBuiltin rfl) 5 ⟨0⟩
    [.int 1, choice, after] entry
  have hran : Ran (Registry.builtin.scope (·.evaluate 5) ⟨0⟩) 0 [.ofForm (.int 1)]
      (entry.withSlots ⟨0⟩) ((entry.withSlots ⟨0⟩).recorded ⟨0⟩ 0 (.int 1)) := .cons rfl .nil
  have hexit := hactive.2.2 [.int 1] choice [after] _ hran (choice_exits (by decide))
  exact ⟨o, ho, hresult, hexit.2.symm.trans ho⟩

end Outward

end Sigil
