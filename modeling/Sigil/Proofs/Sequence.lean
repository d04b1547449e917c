import Sigil.Proofs.StepUniformity

/-!
# What a sequence returns

A sequence keeps its result so far in the variable `seq` of the environment and returns what it
reads there in the end. The variable is shared with every other sequence in that environment, so
what the last form leaves in it counts, not only what the sequence itself put there:
`sequence_eq_ok` says what is returned, and when that is the last result other than null.
-/

namespace Sigil

open Operators

/-! ## Reading through the environment -/

namespace Env

/-- What a name stands for in an environment; null if it is not bound. -/
def read (env : MapRef) (name : String) (s : State) : Value :=
  ((s.heap.map env).get? name).getD .null

/-- The flag that stops sequences is set. -/
def Exited (env : MapRef) (s : State) : Prop :=
  (s.heap.map env).get? exit = some (.bool true)

theorem get?_apply (env : MapRef) (name : String) (s : State) :
    Env.get? env name s = .ended ⟨.ok ((s.heap.map env).get? name), s⟩ := rfl

end Env

theorem EvalM.bind_eq_ok {α β : Type} {m : EvalM α} {f : α → EvalM β} {s u : State} {b : β} :
    (m >>= f) s = .ended ⟨.ok b, u⟩ ↔
      ∃ a t, m s = .ended ⟨.ok a, t⟩ ∧ f a t = .ended ⟨.ok b, u⟩ := by
  constructor
  · intro h
    cases hs : m s with
    | crashed => simp [EvalM.bind_of_crashed hs] at h
    | tooDeep => simp [EvalM.bind_of_tooDeep hs] at h
    | ended r =>
      obtain ⟨result, t⟩ := r
      cases result with
      | ok a => exact ⟨a, t, rfl, (EvalM.bind_of_ok hs).symm.trans h⟩
      | error e => simp [EvalM.bind_of_error hs] at h
  · rintro ⟨a, t, hs, h⟩
    rw [EvalM.bind_of_ok hs, h]

theorem slots_of_list {env : MapRef} {s : State} {r : ListRef}
    (hr : (s.heap.map env).get? Env.seqArray = some (.list r)) :
    slots env s = .ended ⟨.ok r, s⟩ := by
  unfold slots
  rw [EvalM.bind_of_ok (Env.get?_apply env _ s), hr]
  rfl

/-- The heap after a list for the slots was put into the environment. -/
def newSlots (env : MapRef) (h : Heap) : Heap :=
  (h.newList []).2.setMap env ((h.map env).set Env.seqArray (.list (h.newList []).1))

theorem slots_of_not_list {env : MapRef} {s : State}
    (hr : ∀ r, (s.heap.map env).get? Env.seqArray ≠ some (.list r)) :
    slots env s = .ended ⟨.ok (s.heap.newList []).1, { s with heap := newSlots env s.heap }⟩ := by
  unfold slots
  rw [EvalM.bind_of_ok (Env.get?_apply env _ s)]
  cases hv : (s.heap.map env).get? Env.seqArray with
  | none => rfl
  | some v =>
    cases v with
    | list r => exact absurd hv (hr r)
    | _ => rfl

/-- Finding the slots leaves all names but `seqArray` alone. -/
theorem slots_apply (env : MapRef) (s : State) : ∃ r t, slots env s = .ended ⟨.ok r, t⟩ ∧
    s.heap.Grows t.heap ∧
      ∀ name, name ≠ Env.seqArray → Env.read env name t = Env.read env name s := by
  by_cases hlist : ∃ r, (s.heap.map env).get? Env.seqArray = some (.list r)
  · obtain ⟨r, hr⟩ := hlist
    exact ⟨r, s, slots_of_list hr, .refl _, fun _ _ => rfl⟩
  · refine ⟨_, _, slots_of_not_list (not_exists.1 hlist), ?_, fun name hne => ?_⟩
    · exact (Heap.grows_newList _ _).trans (Heap.grows_setMap _ _ _)
    · exact congrArg (·.getD .null) (Heap.get?_setMap_ne (s.heap.newList []).2 env hne _)

theorem slotCount_apply (env : MapRef) (s : State) : ∃ n t, slotCount env s = .ended ⟨.ok n, t⟩ ∧
    s.heap.Grows t.heap ∧ Env.read env Env.seq t = Env.read env Env.seq s := by
  obtain ⟨r, t, hslots, hgrows, hread⟩ := slots_apply env s
  exact ⟨_, t, EvalM.bind_of_ok hslots, hgrows, hread _ (by decide)⟩

/-- Recording a result puts it into `seq` unless it is null. -/
theorem record_apply {env : MapRef} (start : Nat) (v : Value) {s : State}
    (henv : env.index < s.heap.maps.size) : ∃ u, record env start v s = .ended ⟨.ok (), u⟩ ∧
      s.heap.Grows u.heap ∧
        Env.read env Env.seq u = if v.isNull then Env.read env Env.seq s else v := by
  unfold record
  split
  · exact ⟨s, rfl, .refl _, rfl⟩
  · have hset : Env.set env Env.seq v s =
        .ended ⟨.ok (), { s with heap := s.heap.setMap env ((s.heap.map env).set Env.seq v) }⟩ :=
      rfl
    rw [EvalM.bind_of_ok hset]
    obtain ⟨r, t, hslots, hgrows, hread⟩ := slots_apply env
      { s with heap := s.heap.setMap env ((s.heap.map env).set Env.seq v) }
    rw [EvalM.bind_of_ok hslots]
    refine ⟨_, rfl, ?_, ?_⟩
    · exact ((Heap.grows_setMap _ _ _).trans hgrows).trans (Heap.grows_setList _ _ _)
    · refine (hread Env.seq (by decide)).trans ?_
      simp [Env.read, Heap.map_setMap henv]

theorem exitRequested_of_exited {env : MapRef} {s : State} (hexit : Env.Exited env s) :
    exitRequested env s = .ended ⟨.ok true, s⟩ := by
  unfold exitRequested
  rw [EvalM.bind_of_ok (Env.get?_apply env _ s), hexit]
  rfl

theorem exitRequested_of_not_exited {env : MapRef} {s : State} (hexit : ¬Env.Exited env s) :
    exitRequested env s = .ended ⟨.ok false, s⟩ := by
  unfold exitRequested
  rw [EvalM.bind_of_ok (Env.get?_apply env _ s)]
  cases hv : (s.heap.map env).get? Env.exit with
  | none => rfl
  | some v =>
    cases v with
    | bool b =>
      cases b with
      | true => exact absurd hv hexit
      | false => rfl
    | _ => rfl

/-! ## The forms of a sequence -/

/-- The forms of a sequence are evaluated in order, with each result recorded, up to the first form
after which `exit` is true. The list has the result of each form and what `seq` read when the form
was done. -/
inductive Evaluated (sc : Scope) (start : Nat) :
    List Operand → State → List (Value × Value) → State → Prop where
  | done {s : State} : Evaluated sc start [] s [] s
  | exit {o : Operand} {rest : List Operand} {s t u : State} {v after : Value} :
      sc.eval o s = .ended ⟨.ok v, t⟩ → Env.read sc.env Env.seq t = after →
      record sc.env start v t = .ended ⟨.ok (), u⟩ → Env.Exited sc.env u →
      Evaluated sc start (o :: rest) s [(v, after)] u
  | next {o : Operand} {rest : List Operand} {s t u w : State} {v after : Value}
      {steps : List (Value × Value)} :
      sc.eval o s = .ended ⟨.ok v, t⟩ → Env.read sc.env Env.seq t = after →
      record sc.env start v t = .ended ⟨.ok (), u⟩ → ¬Env.Exited sc.env u →
      Evaluated sc start rest u steps w → Evaluated sc start (o :: rest) s ((v, after) :: steps) w

theorem evaluated_of_runForms {sc : Scope} {start : Nat} {forms : List Operand} {s w : State}
    (h : runForms sc start forms s = .ended ⟨.ok (), w⟩) :
    ∃ steps, Evaluated sc start forms s steps w := by
  induction forms generalizing s with
  | nil =>
    obtain rfl : s = w := by cases h; rfl
    exact ⟨[], .done⟩
  | cons o rest ih =>
    obtain ⟨v, t, heval, h⟩ := EvalM.bind_eq_ok.1 h
    obtain ⟨⟨⟩, u, hrecord, h⟩ := EvalM.bind_eq_ok.1 h
    by_cases hexit : Env.Exited sc.env u
    · rw [EvalM.bind_of_ok (exitRequested_of_exited hexit)] at h
      obtain rfl : u = w := by cases h; rfl
      exact ⟨_, .exit heval rfl hrecord hexit⟩
    · rw [EvalM.bind_of_ok (exitRequested_of_not_exited hexit)] at h
      obtain ⟨steps, hsteps⟩ := ih h
      exact ⟨_, .next heval rfl hrecord hexit hsteps⟩

/-- What `seq` holds after the forms: the result of the last one, or what it left there if it gave
null. -/
def held (entry : Value) (steps : List (Value × Value)) : Value :=
  steps.foldl (fun _ e => if e.1.isNull then e.2 else e.1) entry

/-- One form of a sequence: what `seq` reads after its result was recorded. -/
theorem read_seq_of_record {sc : Scope} {start : Nat} {o : Operand} {v : Value} {s t u : State}
    (hgrows : ∀ form, GrowsHeap Value (sc.evaluate sc.env form) (sc.evaluate sc.env form))
    (henv : sc.env.index < s.heap.maps.size) (heval : sc.eval o s = .ended ⟨.ok v, t⟩)
    (hrecord : record sc.env start v t = .ended ⟨.ok (), u⟩) :
    sc.env.index < u.heap.maps.size ∧
      Env.read sc.env Env.seq u = if v.isNull then Env.read sc.env Env.seq t else v := by
  have henv' := Nat.lt_of_lt_of_le henv (hgrows o.raw s _ heval).maps
  obtain ⟨u', hu', hgrows', hread⟩ := record_apply start v henv'
  obtain rfl : u' = u := by simpa [hu'] using hrecord
  exact ⟨Nat.lt_of_lt_of_le henv' hgrows'.maps, hread⟩

theorem Evaluated.read_seq {sc : Scope} {start : Nat} {forms : List Operand} {s w : State}
    {steps : List (Value × Value)} (hsteps : Evaluated sc start forms s steps w)
    (hgrows : ∀ form, GrowsHeap Value (sc.evaluate sc.env form) (sc.evaluate sc.env form))
    (henv : sc.env.index < s.heap.maps.size) :
    Env.read sc.env Env.seq w = held (Env.read sc.env Env.seq s) steps := by
  induction hsteps with
  | done => rfl
  | exit heval hafter hrecord _ =>
    subst hafter
    exact (read_seq_of_record hgrows henv heval hrecord).2
  | next heval hafter hrecord _ _ ih =>
    subst hafter
    obtain ⟨henv', hread⟩ := read_seq_of_record hgrows henv heval hrecord
    rw [ih henv', hread]
    rfl

/-! ## The last result other than null -/

def lastNonNull? (vs : List Value) : Option Value := vs.reverse.find? fun v => !v.isNull

theorem lastNonNull?_concat (vs : List Value) (v : Value) :
    lastNonNull? (vs ++ [v]) = if v.isNull then lastNonNull? vs else some v := by
  cases hv : v.isNull <;> simp [lastNonNull?, hv]

theorem lastNonNull?_cons (v : Value) (vs : List Value) :
    lastNonNull? (v :: vs) = (lastNonNull? vs).or (if v.isNull then none else some v) := by
  cases hv : v.isNull <;> simp [lastNonNull?, List.find?_append, hv]

theorem held_eq_lastNonNull (entry : Value) (steps : List (Value × Value)) :
    held entry steps = (lastNonNull? (steps.map Prod.fst)).getD .null ↔
      (steps = [] → entry = .null) ∧ ∀ e ∈ steps.getLast?, e.1.isNull = true →
        e.2 = (lastNonNull? (steps.map Prod.fst)).getD .null := by
  rcases List.eq_nil_or_concat steps with rfl | ⟨init, e, rfl⟩
  · simp [held, lastNonNull?]
  · cases he : e.1.isNull <;> simp [held, lastNonNull?_concat, he]

/-- Every form that gave null left `seq` as it found it. -/
def Quiet : Value → List (Value × Value) → Prop
  | _, [] => True
  | entry, (v, after) :: rest => if v.isNull then after = entry ∧ Quiet entry rest else Quiet v rest

theorem held_of_quiet {entry : Value} {steps : List (Value × Value)} (hquiet : Quiet entry steps) :
    held entry steps = (lastNonNull? (steps.map Prod.fst)).getD entry := by
  induction steps generalizing entry with
  | nil => rfl
  | cons e rest ih =>
    obtain ⟨v, after⟩ := e
    rw [List.map_cons, lastNonNull?_cons]
    unfold Quiet at hquiet
    cases hv : v.isNull
    · rw [hv] at hquiet
      have hheld : held entry ((v, after) :: rest) = held v rest := by simp [held, hv]
      rw [hheld, ih hquiet]
      cases lastNonNull? (rest.map Prod.fst) <;> rfl
    · rw [hv] at hquiet
      obtain ⟨rfl, hrest⟩ := hquiet
      have hheld : held after ((v, after) :: rest) = held after rest := by simp [held, hv]
      rw [hheld, ih hrest]
      simp

/-! ## Sequences -/

theorem sequence_inv {sc : Scope} {forms : List Operand} {s s' : State} {v : Value}
    (h : sequence sc forms s = .ended ⟨.ok v, s'⟩) :
    ∃ start s₁ t, slotCount sc.env s = .ended ⟨.ok start, s₁⟩ ∧
      runForms sc start forms s₁ = .ended ⟨.ok (), t⟩ ∧ v = Env.read sc.env Env.seq t := by
  obtain ⟨start, s₁, hcount, h⟩ := EvalM.bind_eq_ok.1 h
  obtain ⟨outcome, t, hrun, h⟩ := EvalM.bind_eq_ok.1 h
  obtain ⟨r, t₁, hslots, -, hread⟩ := slots_apply sc.env t
  rw [EvalM.bind_of_ok hslots] at h
  obtain ⟨⟨⟩, t₂, htake, h⟩ := EvalM.bind_eq_ok.1 h
  obtain ⟨⟨⟩, t₃, hok, h⟩ := EvalM.bind_eq_ok.1 h
  have ht₂ : Env.read sc.env Env.seq t₂ = Env.read sc.env Env.seq t₁ := by
    cases htake
    rfl
  obtain ⟨rfl, rfl⟩ : outcome = .ok () ∧ t₂ = t₃ := by
    cases outcome with
    | ok a =>
      cases hok
      exact ⟨rfl, rfl⟩
    | error e => cases hok
  have hv : v = Env.read sc.env Env.seq t₂ := by
    cases h
    rfl
  obtain ⟨⟨result, t'⟩, hrun', hend⟩ := Course.map_eq_ended hrun
  obtain ⟨rfl, rfl⟩ : result = .ok () ∧ t' = t := by
    cases hend
    exact ⟨rfl, rfl⟩
  exact ⟨start, s₁, t', hcount, hrun', (hv.trans ht₂).trans (hread _ (by decide))⟩

/-- With the built-in operators, a sequence that succeeds has evaluated its own forms up to the
first one after which `exit` is true, and returns what `seq` holds then. That is the last of their
results other than null (null if there is none) exactly if the last form that was evaluated, where
it gave null, left that value in `seq`. If no form that gave null has touched `seq`, it is the last
result other than null or, without one, what `seq` held before. -/
theorem sequence_eq_ok (reg : Registry) (hreg : reg.AllBuiltin) (hhost : reg.KeepsHeap)
    (depth : Nat) (env : MapRef) (forms : List Operand) (s s' : State) (v : Value)
    (henv : env.index < s.heap.maps.size)
    (h : sequence (reg.scope (·.evaluate depth) env) forms s = .ended ⟨.ok v, s'⟩) :
    ∃ start s₁ steps t, slotCount env s = .ended ⟨.ok start, s₁⟩ ∧
      Evaluated (reg.scope (·.evaluate depth) env) start forms s₁ steps t ∧
      v = held (Env.read env Env.seq s) steps ∧
      (v = (lastNonNull? (steps.map Prod.fst)).getD .null ↔
        (steps = [] → Env.read env Env.seq s = .null) ∧ ∀ e ∈ steps.getLast?, e.1.isNull = true →
          e.2 = (lastNonNull? (steps.map Prod.fst)).getD .null) ∧
      (Quiet (Env.read env Env.seq s) steps →
        v = (lastNonNull? (steps.map Prod.fst)).getD (Env.read env Env.seq s)) := by
  obtain ⟨start, s₁, t, hcount, hrun, rfl⟩ := sequence_inv h
  obtain ⟨steps, hsteps⟩ := evaluated_of_runForms hrun
  have hheld : Env.read env Env.seq t = held (Env.read env Env.seq s) steps := by
    obtain ⟨start', s₁', hcount', hgrows, hread⟩ := slotCount_apply env s
    obtain ⟨rfl, rfl⟩ : start' = start ∧ s₁' = s₁ := by simpa using hcount'.symm.trans hcount
    rw [← hread]
    exact hsteps.read_seq (growsHeap_evaluate hreg hhost depth env)
      (Nat.lt_of_lt_of_le henv hgrows.maps)
  refine ⟨start, s₁, steps, t, hcount, hsteps, hheld, ?_, fun hquiet => ?_⟩
  · rw [← held_eq_lastNonNull, ← hheld]
    rfl
  · exact hheld.trans (held_of_quiet hquiet)

/-- A sequence of `1` and an iteration, which gives null. The sequence in the body of the iteration
gives `2`, and that is what the outer one returns. -/
def nestedForms : List Operand :=
  [⟨.int 1⟩, ⟨.object [("forEach", .array [.array [.null], .object [("sequence", .int 2)]])]⟩]

theorem sequence_nested :
    (∃ s₁ t, slotCount ⟨0⟩ { heap := { maps := #[.empty] } } = .ended ⟨.ok 0, s₁⟩ ∧
      Evaluated (Registry.builtin.scope (·.evaluate 4) ⟨0⟩) 0 nestedForms s₁
        [(.int 1, .null), (.null, .int 2)] t) ∧
      ∃ s', sequence (Registry.builtin.scope (·.evaluate 4) ⟨0⟩) nestedForms
        { heap := { maps := #[.empty] } } = .ended ⟨.ok (.int 2), s'⟩ := by
  refine ⟨⟨_, _, rfl, .next rfl rfl rfl ?_ (.next rfl rfl rfl ?_ .done)⟩, _, rfl⟩
  · exact fun hexit => nomatch hexit
  · exact fun hexit => nomatch hexit

theorem sequence_nested_held :
    ∃ start s₁ steps t, slotCount ⟨0⟩ { heap := { maps := #[.empty] } } = .ended ⟨.ok start, s₁⟩ ∧
      Evaluated (Registry.builtin.scope (·.evaluate 4) ⟨0⟩) start nestedForms s₁
        steps t ∧ Value.int 2 = held .null steps := by
  obtain ⟨s', h⟩ : ∃ s', sequence (Registry.builtin.scope (·.evaluate 4) ⟨0⟩)
      nestedForms { heap := { maps := #[.empty] } } = .ended ⟨.ok (.int 2), s'⟩ := ⟨_, rfl⟩
  obtain ⟨start, s₁, steps, t, hcount, hsteps, hheld, -⟩ := sequence_eq_ok .builtin (fun _ => rfl)
    (fun f hf => nomatch hf) 4 ⟨0⟩ nestedForms _ s' (.int 2) (by decide) h
  exact ⟨start, s₁, steps, t, hcount, hsteps, hheld⟩

end Sigil
