import Sigil.Proofs.ReadOnly

/-!
# Which branch is taken

The operands of `when` are conditions, each with the branch after it. The conditions are evaluated
one after the other up to the first that does not give false (`AllFalse`), and that one decides:
`Decided` lists the ways. What else is written there has no effect, as `evaluate_when` says with the
positions that matter (`Matters`).
-/

namespace Sigil

open Operators

/-- The first `n` conditions gave false, one evaluated after the other. The conditions stand at the
even positions. -/
inductive AllFalse (sc : Scope) (args : List Operand) (s : State) : Nat → State → Prop where
  | start : AllFalse sc args s 0 s
  | next {n : Nat} {c : Operand} {t u : State} : AllFalse sc args s n t → args[2 * n]? = some c →
      sc.eval c t = .ended ⟨.ok (.bool false), u⟩ → AllFalse sc args s (n + 1) u

/-- How a choice can go. -/
inductive Decided (sc : Scope) (args : List Operand) (s : State) : Course Value → Prop where
  /-- A condition is true: the branch after it is evaluated. -/
  | branch {n : Nat} {c b : Operand} {t u : State} {k : Course Value} : AllFalse sc args s n t →
      args[2 * n]? = some c → sc.eval c t = .ended ⟨.ok (.bool true), u⟩ →
      args[2 * n + 1]? = some b → sc.eval b u = k → Decided sc args s k
  /-- The last operand is a condition, and it is true. -/
  | noBranch {n : Nat} {c : Operand} {t u : State} : AllFalse sc args s n t →
      args[2 * n]? = some c → sc.eval c t = .ended ⟨.ok (.bool true), u⟩ →
      args[2 * n + 1]? = none → Decided sc args s (.ended ⟨.ok .null, u⟩)
  | noMatch {n : Nat} {t : State} : AllFalse sc args s n t → args[2 * n]? = none →
      Decided sc args s (.ended ⟨.error (.noMatch n), t⟩)
  | failed {n : Nat} {c : Operand} {t u : State} {e : EvalError} : AllFalse sc args s n t →
      args[2 * n]? = some c → sc.eval c t = .ended ⟨.error e, u⟩ →
      Decided sc args s (.ended ⟨.error e, u⟩)
  | notBool {n : Nat} {c : Operand} {t u : State} {v : Value} : AllFalse sc args s n t →
      args[2 * n]? = some c → sc.eval c t = .ended ⟨.ok v, u⟩ → v.bool? = none →
      Decided sc args s (.ended ⟨.error (.typeMismatch (.condition c.raw (v.kind u.heap))), u⟩)
  /-- A condition does not end. -/
  | endless {n : Nat} {c : Operand} {t : State} {k : Course Value} : AllFalse sc args s n t →
      args[2 * n]? = some c → sc.eval c t = k → k.outcome? = none → Decided sc args s k

/-! ## One condition -/

section Step

variable {sc : Scope} {total : Nat} {c : Operand} {tail : List Operand} {s t : State}

theorem firstTrue_of_false (heval : sc.eval c s = .ended ⟨.ok (.bool false), t⟩) :
    firstTrue sc total (c :: tail) s = firstTrue sc total (tail.drop 1) t := by
  cases tail with
  | nil => exact EvalM.bind_of_ok heval
  | cons b rest => exact EvalM.bind_of_ok heval

theorem firstTrue_of_true (heval : sc.eval c s = .ended ⟨.ok (.bool true), t⟩) :
    firstTrue sc total (c :: tail) s = match tail[0]? with
      | some b => sc.eval b t
      | none => .ended ⟨.ok .null, t⟩ := by
  cases tail with
  | nil => exact EvalM.bind_of_ok heval
  | cons b rest => exact EvalM.bind_of_ok heval

theorem firstTrue_of_notBool {v : Value} (heval : sc.eval c s = .ended ⟨.ok v, t⟩)
    (hv : v.bool? = none) : firstTrue sc total (c :: tail) s =
      .ended ⟨.error (.typeMismatch (.condition c.raw (v.kind t.heap))), t⟩ := by
  cases v with
  | bool b => cases hv
  | _ =>
    cases tail with
    | nil => exact EvalM.bind_of_ok heval
    | cons b rest => exact EvalM.bind_of_ok heval

theorem firstTrue_of_error {e : EvalError} (heval : sc.eval c s = .ended ⟨.error e, t⟩) :
    firstTrue sc total (c :: tail) s = .ended ⟨.error e, t⟩ := by
  cases tail with
  | nil => exact EvalM.bind_of_error heval
  | cons b rest => exact EvalM.bind_of_error heval

theorem firstTrue_of_endless {k : Course Value} (heval : sc.eval c s = k) (hk : k.outcome? = none) :
    firstTrue sc total (c :: tail) s = k := by
  cases k with
  | ended o => cases hk
  | crashed t =>
    cases tail with
    | nil => exact EvalM.bind_of_crashed heval
    | cons b rest => exact EvalM.bind_of_crashed heval
  | tooDeep =>
    cases tail with
    | nil => exact EvalM.bind_of_tooDeep heval
    | cons b rest => exact EvalM.bind_of_tooDeep heval

end Step

/-! ## All conditions -/

section Choice

variable {sc : Scope} {args : List Operand} {s t : State} {n : Nat} {k : Course Value}

theorem drop_of_getElem? {α : Type} {xs : List α} {i : Nat} {x : α} (hx : xs[i]? = some x) :
    xs.drop i = x :: xs.drop (i + 1) := by
  obtain ⟨hi, rfl⟩ := List.getElem?_eq_some_iff.1 hx
  exact List.drop_eq_getElem_cons hi

/-- After conditions that gave false the choice goes on with the operands behind their branches. -/
theorem AllFalse.firstTrue_eq (hfalse : AllFalse sc args s n t) (total : Nat) :
    firstTrue sc total args s = firstTrue sc total (args.drop (2 * n)) t := by
  induction hfalse with
  | start => rfl
  | next _ hc heval ih =>
    rw [ih, drop_of_getElem? hc, firstTrue_of_false heval, List.drop_drop]
    rfl

/-- If the conditions run out, they were as many as there are. -/
theorem AllFalse.eq_of_getElem? (hfalse : AllFalse sc args s n t) (hend : args[2 * n]? = none) :
    (args.length + 1) / 2 = n := by
  have hlength : args.length ≤ 2 * n := List.getElem?_eq_none_iff.1 hend
  cases hfalse with
  | start => omega
  | next _ hc _ =>
    obtain ⟨hlt, -⟩ := List.getElem?_eq_some_iff.1 hc
    omega

theorem when_of_decided (hdecided : Decided sc args s k) : when_ sc args s = k := by
  unfold when_
  cases hdecided with
  | branch hfalse hc htrue hb heval =>
    rw [hfalse.firstTrue_eq, drop_of_getElem? hc, firstTrue_of_true htrue, List.getElem?_drop,
      Nat.add_zero, hb]
    exact heval
  | noBranch hfalse hc htrue hb =>
    rw [hfalse.firstTrue_eq, drop_of_getElem? hc, firstTrue_of_true htrue, List.getElem?_drop,
      Nat.add_zero, hb]
  | noMatch hfalse hend =>
    rw [hfalse.firstTrue_eq, hfalse.eq_of_getElem? hend,
      List.drop_eq_nil_of_le (List.getElem?_eq_none_iff.1 hend)]
    rfl
  | failed hfalse hc heval =>
    rw [hfalse.firstTrue_eq, drop_of_getElem? hc, firstTrue_of_error heval]
  | notBool hfalse hc heval hv =>
    rw [hfalse.firstTrue_eq, drop_of_getElem? hc, firstTrue_of_notBool heval hv]
  | endless hfalse hc heval hk =>
    rw [hfalse.firstTrue_eq, drop_of_getElem? hc, firstTrue_of_endless heval hk]

/-- A choice that has come past some conditions goes as one of the others decides. -/
theorem AllFalse.decided (hfalse : AllFalse sc args s n t)
    (h : firstTrue sc ((args.length + 1) / 2) (args.drop (2 * n)) t = k) :
    Decided sc args s k := by
  -- Each condition that gives false leaves fewer operands.
  induction hrest : args.length - 2 * n using Nat.strongRecOn generalizing n t with
  | ind rest ih =>
    cases hc : args[2 * n]? with
    | none =>
      rw [List.drop_eq_nil_of_le (List.getElem?_eq_none_iff.1 hc), hfalse.eq_of_getElem? hc] at h
      subst h
      exact .noMatch hfalse hc
    | some c =>
      rw [drop_of_getElem? hc] at h
      cases heval : sc.eval c t with
      | crashed | tooDeep =>
        obtain rfl := (firstTrue_of_endless heval rfl).symm.trans h
        exact .endless hfalse hc heval rfl
      | ended r =>
        obtain ⟨result, u⟩ := r
        cases result with
        | error e =>
          obtain rfl := (firstTrue_of_error heval).symm.trans h
          exact .failed hfalse hc heval
        | ok v =>
          cases hv : v.bool? with
          | none =>
            obtain rfl := (firstTrue_of_notBool heval hv).symm.trans h
            exact .notBool hfalse hc heval hv
          | some b =>
            obtain rfl : v = .bool b := by
              cases v with
              | bool b' => exact congrArg Value.bool (Option.some.inj hv)
              | _ => cases hv
            cases b with
            | true =>
              rw [firstTrue_of_true heval, List.getElem?_drop, Nat.add_zero] at h
              cases hb : args[2 * n + 1]? with
              | none =>
                rw [hb] at h
                subst h
                exact .noBranch hfalse hc heval hb
              | some b =>
                rw [hb] at h
                exact .branch hfalse hc heval hb h
            | false =>
              obtain ⟨hlt, -⟩ := List.getElem?_eq_some_iff.1 hc
              rw [firstTrue_of_false heval, List.drop_drop] at h
              exact ih _ (by omega) (hfalse.next hc heval) h rfl

theorem when_eq_iff (sc : Scope) (args : List Operand) (s : State) (k : Course Value) :
    when_ sc args s = k ↔ Decided sc args s k :=
  ⟨fun h => AllFalse.start.decided h, when_of_decided⟩

end Choice

/-! ## What has no effect -/

/-- The operand at the position matters: it is a condition that the choice comes to, or the branch
of a condition that gives true. -/
def Matters (sc : Scope) (args : List Operand) (s : State) (k : Nat) : Prop :=
  ∃ n t, AllFalse sc args s n t ∧ (k = 2 * n ∨ k = 2 * n + 1 ∧
    ∃ c u, args[2 * n]? = some c ∧ sc.eval c t = .ended ⟨.ok (.bool true), u⟩)

section Agree

variable {sc : Scope} {args args' : List Operand} {s t : State} {n : Nat}
  (hagree : ∀ k, Matters sc args s k → args'[k]? = args[k]?)

include hagree

/-- Lists of operands that agree where it matters pass the same conditions in the same states. -/
theorem AllFalse.of_agree (hfalse : AllFalse sc args s n t) : AllFalse sc args' s n t := by
  induction hfalse with
  | start => exact .start
  | next hfalse hc heval ih =>
    exact ih.next ((hagree _ ⟨_, _, hfalse, .inl rfl⟩).trans hc) heval

theorem Decided.of_agree {k : Course Value} (hdecided : Decided sc args s k) :
    Decided sc args' s k := by
  have hpassed {n : Nat} {t : State} (hfalse : AllFalse sc args s n t) :
      AllFalse sc args' s n t ∧ args'[2 * n]? = args[2 * n]? :=
    ⟨hfalse.of_agree hagree, hagree _ ⟨n, t, hfalse, .inl rfl⟩⟩
  cases hdecided with
  | branch hfalse hc htrue hb heval =>
    obtain ⟨hfalse', hcondition⟩ := hpassed hfalse
    have hbranch := hagree _ ⟨_, _, hfalse, .inr ⟨rfl, _, _, hc, htrue⟩⟩
    exact .branch hfalse' (hcondition.trans hc) htrue (hbranch.trans hb) heval
  | noBranch hfalse hc htrue hb =>
    obtain ⟨hfalse', hcondition⟩ := hpassed hfalse
    have hbranch := hagree _ ⟨_, _, hfalse, .inr ⟨rfl, _, _, hc, htrue⟩⟩
    exact .noBranch hfalse' (hcondition.trans hc) htrue (hbranch.trans hb)
  | noMatch hfalse hend =>
    obtain ⟨hfalse', hcondition⟩ := hpassed hfalse
    exact .noMatch hfalse' (hcondition.trans hend)
  | failed hfalse hc heval =>
    obtain ⟨hfalse', hcondition⟩ := hpassed hfalse
    exact .failed hfalse' (hcondition.trans hc) heval
  | notBool hfalse hc heval hv =>
    obtain ⟨hfalse', hcondition⟩ := hpassed hfalse
    exact .notBool hfalse' (hcondition.trans hc) heval hv
  | endless hfalse hc heval hk =>
    obtain ⟨hfalse', hcondition⟩ := hpassed hfalse
    exact .endless hfalse' (hcondition.trans hc) heval hk

theorem when_eq_of_agree : when_ sc args' s = when_ sc args s :=
  (when_eq_iff ..).2 (.of_agree hagree ((when_eq_iff ..).1 rfl))

end Agree

/-! ## The form -/

/-- The invocation with its conditions and branches. -/
def whenForm (args : List Json) : Json := .object [("when", .array args)]

theorem Registry.operator?_when : builtin.operator? "when" =
    some { name := "when", arity := .any, run := Operators.when_ } := rfl

theorem Registry.evaluate_whenForm {reg : Registry} (hreg : reg.HasBuiltin) (depth : Nat)
    (env : MapRef) (args : List Json) : reg.evaluate (depth + 1) env (whenForm args) =
      when_ (reg.scope (·.evaluate depth) env) (args.map .ofForm) :=
  evaluate_invocation (hreg "when" _ operator?_when) rfl depth env

/-- A choice goes exactly as `Decided` says. It evaluates the conditions from left to right up to
the first that does not give false. If that one is true, the outcome is the one of its branch, or
null if it has none; if it fails, crashes or gives no truth value, so does the choice; and if all
give false, the error is that none matched. The outcome and the final state stay the same if any
operands are replaced other than the conditions up to the deciding one and its branch. -/
theorem evaluate_when (reg : Registry) (hreg : reg.HasBuiltin) (depth : Nat) (env : MapRef)
    (args : List Json) (s : State) :
    let sc := reg.scope (·.evaluate depth) env
    (∀ k, reg.evaluate (depth + 1) env (whenForm args) s = k ↔
      Decided sc (args.map .ofForm) s k) ∧
    ∀ args' : List Json, (∀ k, Matters sc (args.map .ofForm) s k → args'[k]? = args[k]?) →
      reg.evaluate (depth + 1) env (whenForm args') s =
        reg.evaluate (depth + 1) env (whenForm args) s := by
  intro sc
  rw [reg.evaluate_whenForm hreg]
  refine ⟨fun k => when_eq_iff _ _ s k, fun args' hagree => ?_⟩
  rw [reg.evaluate_whenForm hreg]
  refine when_eq_of_agree fun k hk => ?_
  rw [List.getElem?_map, List.getElem?_map, hagree k hk]

namespace Sizes

/-- The number `n` is `5`. -/
def entry : State := { heap := { maps := #[.ofList [("n", .int 5)]] } }

/-- The second condition decides. -/
def args : List Json :=
  [.string "$.n > 9", .object [("exit", .array [])], .string "$.n > 1", .string "big",
    .object [("when", .array [])]]

/-- The first branch would write to `n`, and there is nothing after the second. -/
def args' : List Json :=
  [.string "$.n > 9", .object [("$.n", .int 0)], .string "$.n > 1", .string "big"]

abbrev scope : Scope := Registry.builtin.scope (·.evaluate 4) ⟨0⟩

theorem first_false : scope.eval (.ofForm (.string "$.n > 9")) entry =
    .ended ⟨.ok (.bool false), entry⟩ := by
  rfl

theorem second_true : scope.eval (.ofForm (.string "$.n > 1")) entry =
    .ended ⟨.ok (.bool true), entry⟩ := by
  rfl

theorem passed {n : Nat} {t : State} (hfalse : AllFalse scope (args.map .ofForm) entry n t) :
    n ≤ 1 ∧ t = entry := by
  induction hfalse with
  | start => exact ⟨Nat.zero_le 1, rfl⟩
  | @next n c t u _ hc heval ih =>
    obtain ⟨hn, rfl⟩ := ih
    obtain rfl | rfl := Nat.le_one_iff_eq_zero_or_eq_one.1 hn
    · obtain rfl := Option.some.inj hc
      cases first_false.symm.trans heval
      exact ⟨Nat.le_refl 1, rfl⟩
    · obtain rfl := Option.some.inj hc
      cases second_true.symm.trans heval

theorem agree (k : Nat) (hk : Matters scope (args.map .ofForm) entry k) : args'[k]? = args[k]? := by
  obtain ⟨n, t, hfalse, hk⟩ := hk
  obtain ⟨hn, rfl⟩ := passed hfalse
  obtain rfl | rfl := Nat.le_one_iff_eq_zero_or_eq_one.1 hn
  · obtain rfl | ⟨rfl, c, u, hc, htrue⟩ := hk
    · rfl
    · obtain rfl := Option.some.inj hc
      cases first_false.symm.trans htrue
  · obtain rfl | ⟨rfl, -⟩ := hk
    · rfl
    · rfl

theorem evaluate_when_args : ∃ o, Registry.builtin.evaluate 5 ⟨0⟩ (whenForm args) entry = .ended o ∧
    o.result = .ok (.string "big") ∧
    Registry.builtin.evaluate 5 ⟨0⟩ (whenForm args') entry = .ended o := by
  have hrun : (Registry.builtin.evaluate 5 ⟨0⟩ (whenForm args) entry).outcome?.map Outcome.result =
      some (.ok (.string "big")) := by
    rfl
  obtain ⟨o, ho, hresult⟩ := Course.exists_of_outcome?_map hrun
  have hlazy := (evaluate_when .builtin (Registry.IsBuiltin.hasBuiltin rfl) 4 ⟨0⟩ args entry).2
  exact ⟨o, ho, hresult, (hlazy args' agree).trans ho⟩

end Sizes

end Sigil
