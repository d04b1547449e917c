import Sigil.Proofs.Numeral
import Sigil.Proofs.PlainData
import Sigil.Proofs.ShorthandOperands

/-!
# Chains of integers

A text such as `9 - 2 * -3` is evaluated from the right, whatever its operations are: each of them
takes the integer before it and the value of all that follows. The value is that of 64-bit integers
with truncated quotients, unless a divisor is zero on the way; and a relation in front compares with
this value (`evaluate_chain`).
-/

namespace Sigil

/-- Integers with operations between them. Around each operation are spaces, which are counted
without the one that has to be there. -/
inductive Chain where
  | last (n : Int64)
  | step (n : Int64) (before : Nat) (op : Arith) (after : Nat) (rest : Chain)

namespace Chain

/-- The number of integers. -/
def length : Chain → Nat
  | .last _ => 1
  | .step _ _ _ _ rest => rest.length + 1

def text : Chain → List Char
  | .last n => Json.intText n.toInt
  | .step n before op after rest => Json.intText n.toInt ++ (List.replicate (before + 1) ' ' ++
    (op.symbol :: (List.replicate (after + 1) ' ' ++ rest.text)))

/-- The value, nested to the right. Results wrap. -/
def value : Chain → Int64
  | .last n => n
  | .step n _ op _ rest => .ofInt (op.compute n.toInt rest.value.toInt)

/-- Some divisor is zero. -/
def dividesByZero : Chain → Bool
  | .last _ => false
  | .step _ _ op _ rest => rest.dividesByZero || op.divides && rest.value = 0

/-- A result that is made of the value of the chain, if it has one. -/
def outcome (c : Chain) (v : Value) : Except EvalError Value :=
  if c.dividesByZero then .error (.typeMismatch .divisionByZero) else .ok v

/-- What the text of the chain evaluates to. An integer alone stays text. -/
def asValue : Chain → Value
  | .last n => .string (String.ofList (Json.intText n.toInt))
  | .step n before op after rest => .int (step n before op after rest).value

theorem length_pos (c : Chain) : 0 < c.length := by cases c <;> simp [length]

theorem toInt_asValue (c : Chain) (h : Heap) : c.asValue.toInt h = .ok c.value := by
  cases c with
  | last n => simp only [asValue, Value.toInt, Value.intOfText?_intText, value]
  | step => rfl

/-- The divisions of the rest come before the one in front. -/
theorem outcome_step (n : Int64) (before : Nat) (op : Arith) (after : Nat) (rest : Chain) :
    (step n before op after rest).outcome (step n before op after rest).asValue =
      if rest.dividesByZero then .error (.typeMismatch .divisionByZero)
      else op.result n rest.value := by
  cases hrest : rest.dividesByZero with
  | true => simp [outcome, dividesByZero, hrest]
  | false => simp [outcome, dividesByZero, asValue, value, Arith.result, hrest]

/-! ## The text of a chain -/

def isChainChar (c : Char) : Bool := c.isDigit || c = ' ' || (Arith.ofChar? c).isSome

theorem isChainChar_of_mem_intText {c : Char} {n : Int} (hc : c ∈ Json.intText n) :
    isChainChar c = true := by
  rcases Json.mem_intText hc with rfl | hdigit
  · decide
  · simp [isChainChar, hdigit]

theorem isChainChar_of_mem {chain : Chain} {c : Char} (hc : c ∈ chain.text) :
    isChainChar c = true := by
  induction chain with
  | last n => exact isChainChar_of_mem_intText hc
  | step n before op after rest ih =>
    simp only [text, List.mem_append, List.mem_cons, List.mem_replicate] at hc
    rcases hc with hc | ⟨-, rfl⟩ | rfl | ⟨-, rfl⟩ | hc
    · exact isChainChar_of_mem_intText hc
    · decide
    · simp [isChainChar, Arith.ofChar?_symbol]
    · decide
    · exact ih hc

theorem not_mem_text {c : Char} (hc : isChainChar c = false) (chain : Chain) : c ∉ chain.text := by
  intro hmem
  rw [isChainChar_of_mem hmem] at hc
  cases hc

theorem space_not_mem_intText (n : Int) : ' ' ∉ Json.intText n := by
  intro hmem
  rcases Json.mem_intText hmem with heq | hdigit
  · cases heq
  · cases hdigit

theorem startsOperand_intText (n : Int) : Shorthand.StartsOperand (Json.intText n) := by
  cases htext : Json.intText n with
  | nil =>
    have hread := Json.readInt?_intText n
    rw [htext] at hread
    cases hread
  | cons c cs =>
    rw [Shorthand.startsOperand_cons, Shorthand.isOperandStart]
    have hmem : c ∈ Json.intText n := htext ▸ List.mem_cons_self
    rcases Json.mem_intText hmem with rfl | hdigit
    · decide
    · simp [hdigit]

theorem startsOperand_text (c : Chain) : Shorthand.StartsOperand c.text := by
  cases c with
  | last n => exact startsOperand_intText n.toInt
  | step n => exact (startsOperand_intText n.toInt).append _

theorem comparison?_text (c : Chain) : Shorthand.comparison? c.text = none :=
  Shorthand.comparison?_eq_none (c.not_mem_text (by decide)) (c.not_mem_text (by decide))

theorem computes_text (n : Int64) (before : Nat) (op : Arith) (after : Nat) (rest : Chain) :
    Shorthand.Computes (step n before op after rest).text ⟨op, Json.intText n.toInt, rest.text⟩
      (before + 1) (after + 1) where
  text_eq := rfl
  before_pos := Nat.succ_pos _
  after_pos := Nat.succ_pos _
  left_ne_nil := (startsOperand_intText n.toInt).ne_nil
  left_noSpace := space_not_mem_intText n.toInt
  left_noBracket := ⟨(last n).not_mem_text (by decide), (last n).not_mem_text (by decide)⟩
  right_ne_nil := rest.startsOperand_text.ne_nil
  right_noBracket := ⟨rest.not_mem_text (by decide), rest.not_mem_text (by decide)⟩
  right_start := .inl rest.startsOperand_text.solid

/-! ## Evaluation -/

section Evaluation

variable {reg : Registry} (hvalues : reg.values = .empty) (env : MapRef) (s : State)

/-- A chain is no path, so it is the same as an operand. -/
theorem eval_operand (c : Chain) (ev : Registry → Evaluator) :
    (reg.scope ev env).eval (.ofText c.text) = ev reg env (.string (String.ofList c.text)) := by
  have hnormal : normalizePath c.text = c.text := by
    apply normalizePath_eq_self
    intro d rest heq
    have hmem : sigil ∈ c.text := heq ▸ List.mem_cons_self
    exact absurd hmem (c.not_mem_text (by decide))
  rw [Scope.eval, Uniform.raw_ofText, hnormal]
  rfl

include hvalues

theorem evaluate_last (n : Int64) (depth : Nat) :
    reg.evaluate (depth + 1) env (.string (String.ofList (last n).text)) s =
      .ended ⟨.ok (last n).asValue, s⟩ := by
  have hliteral : reg.IsLiteral (String.ofList (last n).text) := by
    constructor
    · rw [String.toList_ofList]
      intro hhead
      exact (last n).not_mem_text (by decide) (List.mem_of_head? hhead)
    · rw [String.toList_ofList]
      exact (last n).comparison?_text
    · rw [String.toList_ofList]
      exact Shorthand.arithmetic?_eq_none (space_not_mem_intText n.toInt)
    · rw [hvalues]
      rfl
  exact congrFun (Registry.evalText_of_isLiteral hliteral (·.evaluate depth) env) s

/-- An operation on an integer and a chain of which the value is known. -/
theorem run_operands {depth : Nat} {run : Operand → Operand → EvalM Value}
    {result : Int64 → Int64 → Except EvalError Value}
    (hrun : (reg.scope (·.evaluate (depth + 1)) env).TakesInts run result) (n : Int64) {c : Chain}
    (hc : reg.evaluate (depth + 1) env (.string (String.ofList c.text)) s =
      .ended ⟨c.outcome c.asValue, s⟩) :
    run (.ofText (last n).text) (.ofText c.text) s =
      .ended ⟨if c.dividesByZero then .error (.typeMismatch .divisionByZero) else result n c.value,
        s⟩ := by
  have hleft : (reg.scope (·.evaluate (depth + 1)) env).eval (.ofText (last n).text) s =
      .ended ⟨.ok (last n).asValue, s⟩ := by
    rw [eval_operand]
    exact evaluate_last hvalues env s n depth
  have hright : (reg.scope (·.evaluate (depth + 1)) env).eval (.ofText c.text) s =
      .ended ⟨c.outcome c.asValue, s⟩ := by
    rw [eval_operand]
    exact hc
  cases hzero : c.dividesByZero with
  | true =>
    rw [outcome, hzero, if_pos rfl] at hright
    exact hrun.of_right_error hleft hright
  | false =>
    rw [outcome, hzero, if_neg (by decide)] at hright
    exact hrun.of_ints hleft hright (toInt_asValue _ _) (toInt_asValue _ _)

theorem evaluate_text (hreg : reg.HasBuiltin) (c : Chain) {depth : Nat}
    (hdepth : c.length ≤ depth) :
    reg.evaluate depth env (.string (String.ofList c.text)) s =
      .ended ⟨c.outcome c.asValue, s⟩ := by
  induction c generalizing depth with
  | last n =>
    obtain ⟨depth, rfl⟩ := Nat.exists_eq_add_of_le' hdepth
    exact evaluate_last hvalues env s n depth
  | step n before op after rest ih =>
    have hrest := rest.length_pos
    simp only [length] at hdepth
    obtain ⟨depth, rfl⟩ : ∃ d, depth = d + 1 + 1 := ⟨depth - 2, by omega⟩
    have hread := Shorthand.arithmetic?_of_computes (computes_text n before op after rest)
    have htext := Registry.evalText_of_arithmetic? hreg (·.evaluate (depth + 1)) env
      (comparison?_text _) hread
    have hright := ih (show rest.length ≤ depth + 1 by omega)
    rw [Registry.evaluate, Registry.step, String.toList_ofList, htext, outcome_step]
    exact run_operands hvalues env s (Scope.takesInts_run _ op) n hright

end Evaluation

/-- The text of a comparison with a chain. -/
def comparedText (n : Int64) (before : Nat) (r : Relation) (after : Nat) (c : Chain) : List Char :=
  Json.intText n.toInt ++ (List.replicate before ' ' ++
    (r.symbol ++ (List.replicate after ' ' ++ c.text)))

theorem comparison?_comparedText (n : Int64) (before : Nat) (r : Relation) (after : Nat)
    (c : Chain) :
    Shorthand.comparison? (comparedText n before r after c) =
      some ⟨r, Json.intText n.toInt, c.text⟩ := by
  refine Shorthand.comparison?_append (m := before) (n := after) (startsOperand_intText n.toInt) ?_
    ⟨rfl, List.not_mem_nil, c.startsOperand_text, c.not_mem_text (by decide)⟩
  intro d hd
  refine ⟨?_, ?_, ?_⟩ <;> rintro rfl
  · exact space_not_mem_intText n.toInt hd
  · exact (last n).not_mem_text (by decide) hd
  · exact (last n).not_mem_text (by decide) hd

end Chain

/-- A chain of two or more integers evaluates to its value, or fails if a divisor is zero on the
way. With an integer and a relation in front, the two are compared. -/
theorem evaluate_chain (reg : Registry) (hreg : reg.HasBuiltin) (hvalues : reg.values = .empty)
    (c : Chain) (env : MapRef) (s : State) (depth : Nat) (hdepth : c.length ≤ depth) :
    (1 < c.length → reg.evaluate depth env (.string (String.ofList c.text)) s =
      .ended ⟨if c.dividesByZero then .error (.typeMismatch .divisionByZero)
        else .ok (.int c.value), s⟩) ∧
    ∀ n before r after,
      reg.evaluate (depth + 1) env
          (.string (String.ofList (Chain.comparedText n before r after c))) s =
        .ended ⟨if c.dividesByZero then .error (.typeMismatch .divisionByZero)
          else .ok (.bool (r.test n.toInt c.value.toInt)), s⟩ := by
  have htext := c.evaluate_text hvalues env s hreg hdepth
  constructor
  · intro hlength
    cases c with
    | last => exact absurd hlength (by simp [Chain.length])
    | step => exact htext
  · intro n before r after
    obtain ⟨depth, rfl⟩ : ∃ d, depth = d + 1 := ⟨depth - 1, by have := c.length_pos; omega⟩
    have hcompare := Registry.evalText_of_comparison? hreg (·.evaluate (depth + 1)) env
      (Chain.comparison?_comparedText n before r after c)
    rw [Registry.evaluate, Registry.step, String.toList_ofList, hcompare]
    exact Chain.run_operands hvalues env s (Scope.takesInts_compare _ r) n htext

/-- A difference that wraps, and a remainder by zero. -/
theorem evaluate_chain_wrapping :
    let c : Chain := .step Int64.maxValue 0 .minus 1 (.step (-7) 0 .divide 0 (.last 2))
    let z : Chain := .step 1 0 .plus 0 (.step 5 0 .mod 0 (.last 0))
    c.text = "9223372036854775807 -  -7 / 2".toList ∧ z.text = "1 + 5 % 0".toList ∧
      Registry.builtin.evaluate 3 ⟨0⟩ (.string (String.ofList c.text)) {} =
        .ended ⟨.ok (.int (-9223372036854775806)), {}⟩ ∧
      Registry.builtin.evaluate 4 ⟨0⟩
          (.string (String.ofList (Chain.comparedText 0 0 .gt 1 c))) {} =
        .ended ⟨.ok (.bool true), {}⟩ ∧
      Registry.builtin.evaluate 3 ⟨0⟩ (.string (String.ofList z.text)) {} =
        .ended ⟨.error (.typeMismatch .divisionByZero), {}⟩ := by
  intro c z
  have hc := evaluate_chain .builtin (fun _ _ h => h) rfl c ⟨0⟩ {} 3 (Nat.le_refl _)
  have hz := evaluate_chain .builtin (fun _ _ h => h) rfl z ⟨0⟩ {} 3 (Nat.le_refl _)
  refine ⟨?_, ?_, hc.1 (by decide), hc.2 0 0 .gt 1, hz.1 (by decide)⟩
  · decide
  · decide

end Sigil
