import Sigil.Proofs.ReadOnly

/-!
# Programs without calls end

Only a call can run a form that is not written in the program. Without calls every step evaluates
parts of less `weight`, so the depth that a program needs is known before it runs, whatever data and
closures it meets: `evaluate_of_callFree`. Such a program gives a value or an error, unless it
crashes because a window cannot be started. Forms that only read do neither, though their functions
may call (`exists_evaluate_readOnly`).
-/

namespace Sigil

namespace Json

/-! ## Weights -/

mutual

/-- What a form is worth as a bound on the depth of its evaluation. An object counts four more than
its parts, which pays for the characters that an operand gains when it is read as a path. -/
def weight : Json → Nat
  | .string s => s.toList.length
  | .array items => weightItems items
  | .object fields => 4 + weightFields fields
  | _ => 0

def weightItems : List Json → Nat
  | [] => 0
  | j :: rest => 1 + weight j + weightItems rest

def weightFields : List (String × Json) → Nat
  | [] => 0
  | (key, j) :: rest => key.toList.length + weight j + weightFields rest

end

mutual

/-- No object at any depth has the field. -/
def Lacks (field : String) : Json → Prop
  | .array items => ItemsLack field items
  | .object fields => FieldsLack field fields
  | _ => True

def ItemsLack (field : String) : List Json → Prop
  | [] => True
  | j :: rest => Lacks field j ∧ ItemsLack field rest

def FieldsLack (field : String) : List (String × Json) → Prop
  | [] => True
  | (key, j) :: rest => key ≠ field ∧ Lacks field j ∧ FieldsLack field rest

end

theorem weight_lt_of_mem {items : List Json} {j : Json} (hj : j ∈ items) :
    weight j < weightItems items := by
  induction items with
  | nil => cases hj
  | cons i rest ih =>
    rw [weightItems]
    rcases List.mem_cons.1 hj with rfl | hj
    · omega
    · have hlt := ih hj
      omega

theorem ItemsLack.mem {field : String} {items : List Json} (hitems : ItemsLack field items)
    {j : Json} (hj : j ∈ items) : Lacks field j := by
  induction items with
  | nil => cases hj
  | cons i rest ih =>
    rcases List.mem_cons.1 hj with rfl | hj
    · exact hitems.1
    · exact ih hitems.2 hj

theorem FieldsLack.mem {field : String} {fields : List (String × Json)}
    (hfields : FieldsLack field fields) {e : String × Json} (he : e ∈ fields) :
    Lacks field e.2 := by
  induction fields with
  | nil => cases he
  | cons d rest ih =>
    rcases List.mem_cons.1 he with rfl | he
    · exact hfields.2.1
    · exact ih hfields.2.2 he

end Json

open Sigil.Json Sigil.Uniform

/-! ## Operands -/

/-- The operands of an operator are written in its form. -/
theorem mem_operandsOf {operand : Json} {o : Operand} (ho : o ∈ Registry.operandsOf operand) :
    ∃ form, o = .ofForm form ∧ (∀ field, Lacks field operand → Lacks field form) ∧
      weight form ≤ weight operand := by
  obtain ⟨form, rfl, rfl | ⟨items, rfl, hmem⟩⟩ := Registry.mem_operandsOf ho
  · exact ⟨form, rfl, fun _ => id, Nat.le_refl _⟩
  · refine ⟨form, rfl, fun _ hlacks => ItemsLack.mem hlacks hmem, ?_⟩
    rw [weight]
    exact Nat.le_of_lt (weight_lt_of_mem hmem)

/-! ## Parts -/

theorem Lacks.raw_ofForm {field : String} {form : Json} (hform : Lacks field form) :
    Lacks field (Operand.ofForm form).raw := by
  cases form with
  | string s => trivial
  | _ => exact hform

/-- What a step evaluates of a form without a field does not have it either. -/
theorem Lacks.parts {field : String} {form : Json} (hform : Lacks field form) :
    Parts (Lacks field) form := by
  have hoperand {o : Operand} (ho : Lacks field o.raw) :
      Lacks field o.raw ∧ Located (Lacks field) o :=
    ⟨ho, located_of_texts (fun _ => trivial) ho⟩
  cases form with
  | string s => exact fun _ _ => trivial
  | array items => exact fun j hj => ItemsLack.mem hform hj
  | object fields =>
    rw [Parts]
    split
    · exact fun e he => FieldsLack.mem hform he
    · rename_i name args hrole
      obtain ⟨key, operand, rfl, hcase⟩ := Registry.objectRole_eq_invocation hrole
      refine ⟨fun _ => ?_, fun _ _ _ _ _ _ _ => trivial⟩
      rcases hcase with ⟨rfl, rfl⟩ | ⟨rfl, rfl⟩
      · intro o ho
        obtain ⟨form, rfl, hlacks, -⟩ := mem_operandsOf ho
        exact hoperand (Lacks.raw_ofForm (hlacks field hform.2.1))
      · simp only [List.forall_mem_cons, List.not_mem_nil, false_imp_iff, implies_true, and_true]
        exact ⟨hoperand trivial, hoperand (Lacks.raw_ofForm hform.2.1)⟩
  | _ => trivial

theorem Located.and {P Q : Json → Prop} {o : Operand} (hP : Located P o) (hQ : Located Q o) :
    Located (fun form => P form ∧ Q form) o := by
  unfold Located at *
  split
  · rename_i htext
    simp only [htext] at hP hQ
    exact fun expr hexpr => ⟨hP expr hexpr, hQ expr hexpr⟩
  · rename_i htext
    simp only [htext] at hP hQ
    exact ⟨hP, hQ⟩

theorem Parts.and {P Q : Json → Prop} {form : Json} (hP : Parts P form) (hQ : Parts Q form) :
    Parts (fun form => P form ∧ Q form) form := by
  cases form with
  | string s => exact fun t ht => ⟨hP t ht, hQ t ht⟩
  | array items => exact fun j hj => ⟨hP j hj, hQ j hj⟩
  | object fields =>
    simp only [Parts] at *
    split
    · rename_i hrole
      simp only [hrole] at hP hQ
      exact fun e he => ⟨hP e he, hQ e he⟩
    · rename_i hrole
      simp only [hrole] at hP hQ
      refine ⟨fun hname o ho => ?_, fun hname o ho ns hns name hmem => ?_⟩
      · exact ⟨⟨(hP.1 hname o ho).1, (hQ.1 hname o ho).1⟩,
          Located.and (hP.1 hname o ho).2 (hQ.1 hname o ho).2⟩
      · exact ⟨hP.2 hname o ho ns hns name hmem, hQ.2 hname o ho ns hns name hmem⟩
  | _ => trivial

/-! ## Going alike -/

/-- Two evaluations go alike in every state, and their answers have the property: they end, or they
crash because a window cannot be started, if they may. -/
def AlikeWith (mayCrash : Prop) (α : Type) (Q : α → Prop) (m m' : EvalM α) : Prop :=
  ∀ s, (∃ o, m s = .ended o ∧ m' s = .ended o ∧ ResultIn (fun _ => True) Q o.result) ∨
    mayCrash ∧ ∃ t kind capacity, m s = .crashed t ∧ m' s = .crashed t ∧
      t.windows.start? kind capacity = none

theorem AlikeWith.exists_ended {α : Type} {Q : α → Prop} {m m' : EvalM α}
    (h : AlikeWith False α Q m m') (s : State) : ∃ o, m s = .ended o :=
  (h s).elim (fun ⟨o, ho, _⟩ => ⟨o, ho⟩) fun hcrash => hcrash.1.elim

theorem AlikeWith.of_ended {mayCrash : Prop} {m : EvalM Value} (h : ∀ s, ∃ o, m s = .ended o) :
    AlikeWith mayCrash Value (fun _ => True) m m := by
  intro s
  obtain ⟨o, ho⟩ := h s
  exact .inl ⟨o, ho, ho, resultIn_true _⟩

theorem uniform_alikeWith (mayCrash : Prop) :
    Uniform (fun _ => True) (fun _ => True) (AlikeWith mayCrash) where
  own _ := trivial
  command f hf s := .inl ⟨⟨(f s).1, (f s).2⟩, rfl, rfl, (hf s trivial).2⟩
  bind hm hf s := by
    rcases hm s with ⟨⟨result, t⟩, hs, hs', hQ⟩ | ⟨hmay, t, kind, capacity, hs, hs', hstart⟩
    · cases result with
      | ok a =>
        rw [EvalM.bind_of_ok hs, EvalM.bind_of_ok hs']
        exact hf a hQ t
      | error e => exact .inl ⟨_, EvalM.bind_of_error hs, EvalM.bind_of_error hs', trivial⟩
    · exact .inr ⟨hmay, t, kind, capacity, EvalM.bind_of_crashed hs, EvalM.bind_of_crashed hs',
        hstart⟩
  attempt hm s := by
    rcases hm s with ⟨o, hs, hs', hQ⟩ | ⟨hmay, t, kind, capacity, hs, hs', hstart⟩
    · refine .inl ⟨⟨.ok o.result, o.state⟩, ?_, ?_, hQ⟩
      · rw [EvalM.attempt, hs]
        rfl
      · rw [EvalM.attempt, hs']
        rfl
    · refine .inr ⟨hmay, t, kind, capacity, ?_, ?_, hstart⟩
      · rw [EvalM.attempt, hs]
        rfl
      · rw [EvalM.attempt, hs']
        rfl

theorem writable_true : Writable (fun _ => True) (fun _ => True) fun _ => True := by
  constructor
  · constructor <;> simp
  all_goals simp

/-- A text ends at any depth beyond its length, also where there are other operators. -/
theorem exists_evaluate_text {reg : Registry} (hreg : reg.HasBuiltin) {text : List Char}
    {depth : Nat} (hdepth : text.length < depth) (env : MapRef) (s : State) :
    ∃ o, reg.evaluate depth env (.string (String.ofList text)) s = .ended o := by
  have hends (depth : Nat) : ∀ text : List Char, text.length < depth →
      AlikeWith False Value (fun _ => True) (reg.evaluate depth env (.string (String.ofList text)))
        (reg.evaluate depth env (.string (String.ofList text))) := by
    induction depth with
    | zero => exact fun _ hlt => absurd hlt (Nat.not_lt_zero _)
    | succ depth ih =>
      intro text hlt
      refine (uniform_alikeWith False).evalText writable_true.toReadable hreg
        (P := fun form => ∃ t : List Char, t.length < depth ∧ form = .string (String.ofList t))
        ⟨trivial, trivial, fun _ => trivial⟩ ?_ ?_
      · rintro form ⟨t, ht, rfl⟩
        exact ih t ht
      · intro t ht
        rw [String.toList_ofList] at ht
        exact ⟨t, by omega, rfl⟩
  exact (hends depth text hdepth).exists_ended s

theorem exists_evaluate_operand {reg : Registry} (hreg : reg.HasBuiltin) {text : String}
    {depth : Nat} (hdepth : text.toList.length + 1 < depth) (env : MapRef) (s : State) :
    ∃ o, reg.evaluate depth env (Operand.ofForm (.string text)).raw s = .ended o := by
  have hlength := length_normalizePath_le text.toList
  exact exists_evaluate_text hreg (by omega) env s

end Sigil
