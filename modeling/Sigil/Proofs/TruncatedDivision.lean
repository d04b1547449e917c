import Sigil.Proofs.IntegerOperands

/-!
# Division by one divisor after the other

`divide` and `mod` fail exactly if a divisor is zero. Dividing by several divisors in turn truncates
at every step and still gives the quotient by their product, truncated once (`tdiv_tdiv`), unless a
step divides the least integer by -1: that quotient alone does not fit and wraps. Quotient and
remainder by one divisor make up the dividend even then (`evaluate_divisions`).
-/

namespace Sigil

/-! ## Truncation -/

/-- Truncating twice is truncating once. -/
theorem tdiv_tdiv (a b c : Int) : (a.tdiv b).tdiv c = a.tdiv (b * c) := by
  have hnat (m n k : Nat) : ((m : Int).tdiv n).tdiv k = (m : Int).tdiv (n * k) := by
    rw [← Int.ofNat_tdiv, ← Int.ofNat_tdiv, ← Int.natCast_mul, ← Int.ofNat_tdiv,
      Nat.div_div_eq_div_mul]
  obtain ⟨m, rfl | rfl⟩ := a.eq_nat_or_neg <;> obtain ⟨n, rfl | rfl⟩ := b.eq_nat_or_neg <;>
    obtain ⟨k, rfl | rfl⟩ := c.eq_nat_or_neg <;>
    simp only [Int.neg_tdiv, Int.tdiv_neg, Int.neg_mul, Int.mul_neg, Int.neg_neg, hnat]

/-- Only the least integer divided by -1 has no quotient of 64 bits. -/
theorem toInt_div_of_fits {a b : Int64} (hfits : ¬(a = Int64.minValue ∧ b = -1)) :
    (a / b).toInt = a.toInt.tdiv b.toInt := by
  by_cases ha : a = Int64.minValue
  · exact Int64.toInt_div_of_ne_right a b fun hb => hfits ⟨ha, hb⟩
  · exact Int64.toInt_div_of_ne_left a b ha

/-- Quotient and remainder make up the dividend, also where the quotient wraps. -/
theorem div_mul_add_mod (a b : Int64) : a / b * b + a % b = a := by
  have hdiv : a / b = .ofInt (a.toInt.tdiv b.toInt) := by
    rw [eq_comm, Int64.ofInt_eq_iff_bmod_eq_toInt]
    exact (Int64.toInt_div a b).symm
  have hmod : a % b = .ofInt (a.toInt.tmod b.toInt) := by
    rw [← Int64.toInt_mod, Int64.ofInt_toInt]
  calc a / b * b + a % b
    _ = .ofInt (a.toInt.tdiv b.toInt) * .ofInt b.toInt + .ofInt (a.toInt.tmod b.toInt) := by
      rw [hdiv, hmod, Int64.ofInt_toInt]
    _ = .ofInt (a.toInt.tdiv b.toInt * b.toInt + a.toInt.tmod b.toInt) := by
      rw [Int64.ofInt_add, Int64.ofInt_mul]
    _ = a := by rw [Int.tdiv_mul_add_tmod, Int64.ofInt_toInt]

namespace Operators

theorem divideAll_eq_none_iff {f : Int64 → Int64 → Int64} {n : Int64} {ds : List Int64} :
    divideAll f n ds = none ↔ 0 ∈ ds := by
  induction ds generalizing n with
  | nil => simp [divideAll]
  | cons d ds ih =>
    rw [divideAll]
    split
    · simp [*]
    · rw [ih]
      grind

theorem divideAll_of_ne_zero {f : Int64 → Int64 → Int64} {n : Int64} {ds : List Int64}
    (hds : 0 ∉ ds) : divideAll f n ds = some (ds.foldl f n) := by
  induction ds generalizing n with
  | nil => rfl
  | cons d ds ih => grind [divideAll]

/-- No step divides the least integer by -1. -/
def Fits (n : Int64) (ds : List Int64) : Prop :=
  ∀ i d, ds[i]? = some d → ¬((ds.take i).foldl (· / ·) n = Int64.minValue ∧ d = -1)

theorem Fits.rest {n d : Int64} {ds : List Int64} (hfits : Fits n (d :: ds)) : Fits (n / d) ds :=
  fun i e he => hfits (i + 1) e he

theorem toInt_foldl_div {n : Int64} {ds : List Int64} (hfits : Fits n ds) :
    (ds.foldl (· / ·) n).toInt = n.toInt.tdiv (ds.map Int64.toInt).prod := by
  induction ds generalizing n with
  | nil => simp
  | cons d ds ih =>
    have hfirst : (n / d).toInt = n.toInt.tdiv d.toInt := toInt_div_of_fits (hfits 0 d rfl)
    rw [List.foldl_cons, ih hfits.rest, hfirst, tdiv_tdiv, List.map_cons, List.prod_cons]

end Operators

namespace Arith

theorem outcome_divides {op : Arith} (hop : op.divides = true) (n : Int64) (ds : List Int64) :
    (op.outcome (n :: ds) = .error (.typeMismatch .divisionByZero) ↔ 0 ∈ ds) ∧
      (0 ∉ ds → ∃ q, op.outcome (n :: ds) = .ok (.int q)) := by
  have hquotient (f : Int64 → Int64 → Int64) :
      (quotient f n ds = .error (.typeMismatch .divisionByZero) ↔ 0 ∈ ds) ∧
        (0 ∉ ds → ∃ q, quotient f n ds = .ok (.int q)) := by
    rw [← Operators.divideAll_eq_none_iff (f := f) (n := n), quotient]
    cases Operators.divideAll f n ds <;> simp
  cases op with
  | divide => exact hquotient _
  | mod => exact hquotient _
  | plus | minus | multiply => cases hop

theorem outcome_divide {n : Int64} {ds : List Int64} (hds : 0 ∉ ds) :
    divide.outcome (n :: ds) = .ok (.int (ds.foldl (· / ·) n)) := by
  rw [outcome, quotient, Operators.divideAll_of_ne_zero hds]

theorem outcome_mod {n : Int64} {ds : List Int64} (hds : 0 ∉ ds) :
    mod.outcome (n :: ds) = .ok (.int (ds.foldl (· % ·) n)) := by
  rw [outcome, quotient, Operators.divideAll_of_ne_zero hds]

/-- The operation on forms. -/
def form (op : Arith) (forms : List Json) : Json := .object [(op.operatorName, .array forms)]

theorem operatorName_mem_names (op : Arith) : op.operatorName ∈ op.names := List.mem_cons_self

end Arith

/-- The remainder is zero or has the sign of the dividend, and is smaller than the divisor. -/
theorem mod_bounds (a : Int64) {b : Int64} (hb : b ≠ 0) :
    (a % b = 0 ∨ (a % b).toInt.sign = a.toInt.sign) ∧
      (a % b).toInt.natAbs < b.toInt.natAbs := by
  have hb' : b.toInt ≠ 0 := fun hzero => hb (Int64.toInt_inj.1 hzero)
  constructor
  · by_cases hdvd : b.toInt ∣ a.toInt
    · left
      rw [← Int64.toInt_inj, Int64.toInt_mod, Int.tmod_eq_zero_of_dvd hdvd]
      rfl
    · right
      rw [Int64.toInt_mod, Int.sign_tmod, if_neg hdvd]
  · rw [Int64.toInt_mod, Int.natAbs_tmod]
    exact Nat.mod_lt _ (Int.natAbs_pos.2 hb')

section Numerals

variable {reg : Registry} (hreg : reg.HasBuiltin) {dividend divisor : Json} {a b : Int64}
  (hdividend : reg.IsNumeral dividend a) (hdivisor : reg.IsNumeral divisor b)
  (env : MapRef) (s : State)

include hreg hdividend hdivisor

theorem evaluate_pair {op : Arith} {n : Int64} (hn : op.outcome [a, b] = .ok (.int n)) {depth : Nat}
    (hdepth : 0 < depth) :
    reg.evaluate (depth + 1) env (op.form [dividend, divisor]) s = .ended ⟨.ok (.int n), s⟩ := by
  have hleast : op.least ≤ [a, b].length := by cases op <;> simp [Arith.least]
  rw [← hn]
  exact Registry.IsNumeral.evaluate_arith hreg op.operatorName_mem_names
    (.cons hdividend (.cons hdivisor .nil)) hleast hdepth env s

/-- The quotient times the divisor, plus the remainder. -/
theorem evaluate_dividend (hb : b ≠ 0) {depth : Nat} (hdepth : 0 < depth) :
    reg.evaluate (depth + 3) env
        (Arith.plus.form [Arith.multiply.form [Arith.divide.form [dividend, divisor], divisor],
          Arith.mod.form [dividend, divisor]]) s =
      .ended ⟨.ok (.int a), s⟩ := by
  have hdivisors : 0 ∉ [b] := by simpa using hb.symm
  have hquotient := evaluate_pair hreg hdividend hdivisor env s (Arith.outcome_divide hdivisors)
    hdepth
  have hremainder := evaluate_pair hreg hdividend hdivisor env s (Arith.outcome_mod hdivisors)
    (Nat.succ_pos depth)
  have hfactors : (reg.scope (·.evaluate (depth + 1)) env).Evaluates
      [.ofForm (Arith.divide.form [dividend, divisor]), .ofForm divisor] s
      [.int (a / b), (Value.ofJson divisor s.heap).1] s :=
    .cons hquotient (.cons (hdivisor.eval_eq (Nat.succ_pos _) env s) .nil)
  have hproduct : Arith.multiply.outcome [a / b, b] = .ok (.int (a / b * b)) := by
    simp [Arith.outcome, Operators.product]
  have hsummands : (reg.scope (·.evaluate (depth + 2)) env).Evaluates
      [.ofForm (Arith.multiply.form [Arith.divide.form [dividend, divisor], divisor]),
        .ofForm (Arith.mod.form [dividend, divisor])] s [.int (a / b * b), .int (a % b)] s := by
    refine .cons ?_ (.cons hremainder .nil)
    rw [← hproduct]
    exact Registry.evaluate_arith_of_ints hreg Arith.multiply.operatorName_mem_names hfactors
      (.cons rfl (.cons (hdivisor.toInt_eq s.heap) .nil)) (Nat.zero_le _)
  have hsum : Arith.plus.outcome [a / b * b, a % b] = .ok (.int a) := by
    simp [Arith.outcome, Operators.sum, div_mul_add_mod]
  rw [← hsum]
  exact Registry.evaluate_arith_of_ints hreg Arith.plus.operatorName_mem_names hsummands
    (.cons rfl (.cons rfl .nil)) (Nat.zero_le _)

end Numerals

/-- Division by one divisor after the other, of what the operands give. `divide` and `mod` fail
exactly if a divisor is zero, and otherwise give an integer. Unless a step divides the least integer
by -1, `divide` gives the quotient by the product of all divisors, truncated toward zero. The
remainder by a single divisor is zero or has the sign of the dividend and is smaller than the
divisor; and with the quotient it makes up the dividend, whatever this is. -/
theorem evaluate_divisions (reg : Registry) (hreg : reg.HasBuiltin) (depth : Nat) (env : MapRef)
    (s : State) (a : Int64) :
    (∀ op, op = Arith.divide ∨ op = Arith.mod → ∀ key ∈ op.names, ∀ operand vs t bs,
      (reg.scope (·.evaluate depth) env).Evaluates (Registry.operandsOf operand) s vs t →
      Value.Ints t.heap vs (a :: bs) →
      let result := reg.evaluate (depth + 1) env (.object [(key, operand)]) s
      (result = .ended ⟨.error (.typeMismatch .divisionByZero), t⟩ ↔ 0 ∈ bs) ∧
      (0 ∉ bs → ∃ n : Int64, result = .ended ⟨.ok (.int n), t⟩) ∧
      (op = .divide → 0 ∉ bs → Operators.Fits a bs →
        ∃ q : Int64, result = .ended ⟨.ok (.int q), t⟩ ∧
          q.toInt = a.toInt.tdiv (bs.map Int64.toInt).prod)) ∧
    ∀ b dividend divisor, b ≠ 0 → 0 < depth → reg.IsNumeral dividend a → reg.IsNumeral divisor b →
      let quotient := Arith.divide.form [dividend, divisor]
      let remainder := Arith.mod.form [dividend, divisor]
      (∃ r : Int64, reg.evaluate (depth + 1) env remainder s = .ended ⟨.ok (.int r), s⟩ ∧
        (r = 0 ∨ r.toInt.sign = a.toInt.sign) ∧ r.toInt.natAbs < b.toInt.natAbs) ∧
      reg.evaluate (depth + 3) env
          (Arith.plus.form [Arith.multiply.form [quotient, divisor], remainder]) s =
        .ended ⟨.ok (.int a), s⟩ := by
  constructor
  · intro op hop key hkey operand vs t bs hargs hints result
    have hdivides : op.divides = true := by rcases hop with rfl | rfl <;> rfl
    have hleast : op.least ≤ (a :: bs).length := by rcases hop with rfl | rfl <;> simp [Arith.least]
    have hresult : result = .ended ⟨op.outcome (a :: bs), t⟩ :=
      Registry.evaluate_arith_of_ints hreg hkey hargs hints hleast
    obtain ⟨hzero, hok⟩ := Arith.outcome_divides hdivides a bs
    refine ⟨?_, ?_, ?_⟩
    · rw [hresult, ← hzero]
      simp
    · intro hbs
      obtain ⟨n, hn⟩ := hok hbs
      exact ⟨n, by rw [hresult, hn]⟩
    · rintro rfl hbs hfits
      exact ⟨_, by rw [hresult, Arith.outcome_divide hbs], Operators.toInt_foldl_div hfits⟩
  · intro b dividend divisor hb hdepth hdividend hdivisor quotient remainder
    have hremainder := evaluate_pair hreg hdividend hdivisor env s
      (Arith.outcome_mod (by simpa using hb.symm)) hdepth
    exact ⟨⟨a % b, hremainder, mod_bounds a hb⟩,
      evaluate_dividend hreg hdividend hdivisor env s hb hdepth⟩

/-- The least integer, divided by zero after two, by 7 and then by -3, and by -1. -/
theorem evaluate_divisions_least :
    let least : Json := .int (-9223372036854775808)
    let evaluate := Registry.builtin.evaluate
    evaluate 2 ⟨0⟩ (.object [("%", .array [least, .int 2, .int 0])]) {} =
        .ended ⟨.error (.typeMismatch .divisionByZero), {}⟩ ∧
      (∃ q : Int64, evaluate 2 ⟨0⟩ (.object [("/", .array [least, .int 7, .int (-3)])]) {} =
        .ended ⟨.ok (.int q), {}⟩ ∧ q.toInt = 439208192231179800) ∧
      evaluate 4 ⟨0⟩
          (Arith.plus.form [Arith.multiply.form [Arith.divide.form [least, .int (-1)], .int (-1)],
            Arith.mod.form [least, .int (-1)]]) {} =
        .ended ⟨.ok (.int Int64.minValue), {}⟩ := by
  intro least evaluate
  have hleast : Registry.builtin.IsNumeral least Int64.minValue :=
    Registry.isNumeral_int _ Int64.minValue
  have hnumeral (n : Int64) {k : Int} (hk : n.toInt = k) :
      Registry.builtin.IsNumeral (.int k) n :=
    hk ▸ Registry.isNumeral_int _ n
  obtain ⟨hall, hone⟩ := evaluate_divisions .builtin (fun _ _ h => h) 1 ⟨0⟩ {} Int64.minValue
  refine ⟨?_, ?_, ?_⟩
  · obtain ⟨vs, hvs, hints⟩ := Registry.IsNumeral.evaluates
      (.cons hleast (.cons (hnumeral 2 rfl) (.cons (hnumeral 0 rfl) .nil))) Nat.one_pos ⟨0⟩ {}
    have hmod := hall .mod (.inr rfl) "%" (by decide) (.array [least, .int 2, .int 0]) vs {} _ hvs
      hints
    exact hmod.1.2 (by decide)
  · have hthree : Registry.builtin.IsNumeral (.int (-3)) (-3) := hnumeral (-3) (by decide)
    obtain ⟨vs, hvs, hints⟩ := Registry.IsNumeral.evaluates
      (.cons hleast (.cons (hnumeral 7 rfl) (.cons hthree .nil))) Nat.one_pos ⟨0⟩ {}
    have hfits : Operators.Fits Int64.minValue [7, -3] := by
      intro i d hd hstep
      have hmem := List.mem_of_getElem? hd
      rw [hstep.2] at hmem
      exact absurd hmem (by decide)
    have hdivide := hall .divide (.inl rfl) "/" (by decide) (.array [least, .int 7, .int (-3)]) vs
      {} _ hvs hints
    exact hdivide.2.2 rfl (by decide) hfits
  · exact (hone (-1) _ _ (by decide) Nat.one_pos hleast (hnumeral (-1) (by decide))).2

end Sigil
