import Mathlib
import Sigil.Number.Binary64

/-!
# Equal doubles and integers as doubles

What the comparison of doubles says about the numbers they stand for. Equal doubles have the same
sign, mantissa and exponent, zeros of opposite sign apart (`ofFloat_of_beq`). An integer below
`2 ^ 53` becomes the double that stands for it (`truncate_ofInt`), and a larger one becomes a double
that is no smaller than `2 ^ 53` (`le_truncate_ofInt`).
-/

namespace Sigil.Number

open Float.Model (Format)
open Float.Model.UnpackedFloat

/-! ## Bit patterns and comparison -/

theorem toNat_unpackExponent (b : BitVec Format.binary64.numBits) :
    (unpackExponent b).toNat = b.toNat / pow2 52 % pow2 11 := by
  simp [unpackExponent, pow2, Nat.shiftRight_eq_div_pow]

/-- A double keeps the bit pattern that it is made from, infinities and what is no number apart. -/
theorem ofFloat_ofBits {u : UInt64} (hfin : u.toNat / pow2 52 % pow2 11 ≠ 2047) :
    Parts.ofFloat (Float.ofBits u) = Parts.ofBits u.toNat := by
  have hexp : @unpackExponent Format.binary64 u.toBitVec ≠ -1#_ := by
    intro he
    refine hfin ((toNat_unpackExponent u.toBitVec).symm.trans ?_)
    rw [he]
    rfl
  have hnan : @isNaNBits Format.binary64 u.toBitVec = false :=
    decide_eq_false fun h => hexp h.1
  have hbits : (Float.ofBits u).toBits.toBitVec = u.toBitVec := by
    refine (@pack_unpack Format.binary64 u.toBitVec (by decide)).trans ?_
    rw [hnan]
    rfl
  exact congrArg Parts.ofBits (congrArg BitVec.toNat hbits)

/-- Equal doubles stand for the same thing, or are zeros. -/
theorem ofFloat_of_beq {x y : Float} (h : (x == y) = true) :
    Parts.ofFloat x = Parts.ofFloat y ∨
      ∃ s t, Parts.ofFloat x = .finite s 0 (-1074) ∧ Parts.ofFloat y = .finite t 0 (-1074) := by
  have hplus : Parts.ofFloat 0 = .finite false 0 (-1074) := by decide
  have hminus : Parts.ofFloat (-0) = .finite true 0 (-1074) := by decide
  rcases (Float.beq_iff_ne_nan_and_eq.1 h).2.2 with rfl | ⟨rfl, rfl⟩ | ⟨rfl, rfl⟩
  · exact .inl rfl
  · exact .inr ⟨_, _, hplus, hminus⟩
  · exact .inr ⟨_, _, hminus, hplus⟩

/-! ## Integers as doubles -/

theorem roundHalfEven_one (n : Nat) : roundHalfEven n 1 = n := by
  simp [roundHalfEven, Nat.mod_one]

theorem le_roundHalfEven (num den : Nat) : num / den ≤ roundHalfEven num den := by
  unfold roundHalfEven
  dsimp only
  split_ifs <;> omega

theorem roundHalfEven_le (num den : Nat) : roundHalfEven num den ≤ num / den + 1 := by
  unfold roundHalfEven
  dsimp only
  split_ifs <;> omega

/-- A number scaled by a power of two so that its first bit stands for `2 ^ k`. -/
theorem pow_le_scaled {n : Nat} (h0 : n ≠ 0) (k : Nat) :
    2 ^ k ≤ n * 2 ^ (k - n.log2) / 2 ^ (n.log2 - k) := by
  rw [Nat.le_div_iff_mul_le (by positivity)]
  calc 2 ^ k * 2 ^ (n.log2 - k) = 2 ^ n.log2 * 2 ^ (k - n.log2) := by
        rw [← pow_add, ← pow_add]
        congr 1
        omega
    _ ≤ n * 2 ^ (k - n.log2) := Nat.mul_le_mul_right _ (Nat.log2_self_le h0)

theorem scaled_lt (n k : Nat) : n * 2 ^ (k - n.log2) / 2 ^ (n.log2 - k) < 2 ^ (k + 1) := by
  rw [Nat.div_lt_iff_lt_mul (by positivity)]
  calc n * 2 ^ (k - n.log2) < 2 ^ (n.log2 + 1) * 2 ^ (k - n.log2) := by
        gcongr
        exact Nat.lt_log2_self
    _ = 2 ^ (k + 1) * 2 ^ (n.log2 - k) := by
        rw [← pow_add, ← pow_add]
        congr 1
        omega

/-- The mantissa of an integer as a double, before a carry. -/
def intMantissa (n : Nat) : Nat :=
  roundHalfEven (n * pow2 (52 - n.log2)) (pow2 (n.log2 - 52))

theorem le_intMantissa {n : Nat} (h0 : n ≠ 0) : pow2 52 ≤ intMantissa n :=
  (pow_le_scaled h0 52).trans (le_roundHalfEven _ _)

theorem intMantissa_le (n : Nat) : intMantissa n ≤ pow2 53 :=
  (roundHalfEven_le _ _).trans (scaled_lt n 52)

theorem intMantissa_of_lt {n : Nat} (h0 : n ≠ 0) (hn : n < pow2 53) :
    intMantissa n = n * pow2 (52 - n.log2) := by
  have hlog : n.log2 < 53 := (Nat.log2_lt h0).2 hn
  have hexp : n.log2 - 52 = 0 := by omega
  rw [intMantissa, hexp]
  exact roundHalfEven_one _

theorem ratioBits_one {n : Nat} (h0 : n ≠ 0) :
    ratioBits n 1 = min ((n.log2 + 1022) * pow2 52 + intMantissa n) (2047 * pow2 52) := by
  have hone : (1 : Nat).log2 = 0 := by decide
  have hestimate : max ((n.log2 : Int) - (1 : Nat).log2 - 53) (-1074) = (n.log2 : Int) - 53 := by
    omega
  have hdown (k : Nat) : scaleDown n 1 ((n.log2 : Int) - k) =
      (n * pow2 (k - n.log2), pow2 (n.log2 - k)) := by
    have h1 : (-((n.log2 : Int) - k)).toNat = k - n.log2 := by omega
    have h2 : ((n.log2 : Int) - k).toNat = n.log2 - k := by omega
    rw [scaleDown, h1, h2, one_mul]
  have hbig : pow2 53 ≤ n * pow2 (53 - n.log2) / pow2 (n.log2 - 53) := pow_le_scaled h0 53
  have hnext : (n.log2 : Int) - 53 + 1 = n.log2 - 52 := by omega
  have hfield : ((n.log2 : Int) - 52 + 1074).toNat = n.log2 + 1022 := by omega
  have hdown53 := hdown 53
  have hdown52 := hdown 52
  push_cast at hdown53 hdown52
  rw [ratioBits, if_neg h0, hestimate]
  dsimp only
  rw [hdown53]
  dsimp only
  rw [if_pos hbig, hnext, hdown52]
  dsimp only
  rw [hfield, intMantissa]

/-- A bit pattern put together from a sign, an exponent and a mantissa of 53 bits. -/
theorem ofBits_normal (s : Bool) {k r : Nat} (hk : k < 2046) (hlow : pow2 52 ≤ r)
    (hhigh : r < pow2 53) :
    Parts.ofBits ((if s then pow2 63 else 0) + (k * pow2 52 + r)) = .finite s r (k - 1074) := by
  obtain ⟨f, rfl⟩ := Nat.exists_eq_add_of_le hlow
  have hf : f < 2 ^ 52 := by
    simp only [pow2, Nat.pow_eq] at hhigh
    omega
  generalize hb : (if s then pow2 63 else 0) + (k * pow2 52 + (pow2 52 + f)) = b
  have hfield : b / pow2 52 % pow2 11 = k + 1 := by
    subst hb
    cases s <;> simp only [pow2, Nat.pow_eq, reduceIte, Bool.false_eq_true] <;> omega
  have hfraction : b % pow2 52 = f := by
    subst hb
    cases s <;> simp only [pow2, Nat.pow_eq, reduceIte, Bool.false_eq_true] <;> omega
  have hsign : decide (pow2 63 ≤ b) = s := by
    subst hb
    cases s
    · rw [decide_eq_false]
      simp only [pow2, Nat.pow_eq, reduceIte, Bool.false_eq_true]
      omega
    · rw [decide_eq_true]
      simp only [pow2, Nat.pow_eq, reduceIte]
      omega
  simp only [Parts.ofBits, hfield, hfraction, hsign]
  rw [if_neg (by simp [pow2]; omega), if_neg (by omega)]
  congr 1
  push_cast
  omega

theorem ofFloat_ofInt {n : Int} (h0 : n ≠ 0) (hn : n.natAbs < pow2 64) :
    Parts.ofFloat (ofInt n) = Parts.ofBits ((if decide (n < 0) then pow2 63 else 0) +
      ((n.natAbs.log2 + 1022) * pow2 52 + intMantissa n.natAbs)) := by
  have habs : n.natAbs ≠ 0 := by omega
  have hlog : n.natAbs.log2 < 64 := (Nat.log2_lt habs).2 hn
  have hle := intMantissa_le n.natAbs
  simp only [pow2, Nat.pow_eq] at hle
  have hratio : ratioBits n.natAbs 1 =
      (n.natAbs.log2 + 1022) * pow2 52 + intMantissa n.natAbs := by
    rw [ratioBits_one habs, min_eq_left]
    simp only [pow2, Nat.pow_eq]
    omega
  rw [ofInt, ofRatio, hratio]
  generalize hb : (if decide (n < 0) then pow2 63 else 0) +
    ((n.natAbs.log2 + 1022) * pow2 52 + intMantissa n.natAbs) = b
  have hsmall : b < 2 ^ 64 ∧ b / pow2 52 % pow2 11 ≠ 2047 := by
    subst hb
    by_cases hneg : n < 0 <;> simp [hneg, pow2] <;> omega
  have hnat : (UInt64.ofNat b).toNat = b := UInt64.toNat_ofNat_of_lt' hsmall.1
  rw [ofFloat_ofBits (by rw [hnat]; exact hsmall.2), hnat]

theorem ofFloat_ofInt_zero : Parts.ofFloat (ofInt 0) = .finite false 0 (-1074) := by decide

/-- An integer that fits the mantissa is kept. -/
theorem truncate_ofInt {n : Int} (hn : n.natAbs < pow2 53) :
    (Parts.ofFloat (ofInt n)).isInteger = true ∧ (Parts.ofFloat (ofInt n)).truncate = n := by
  by_cases h0 : n = 0
  · subst h0
    simp [ofFloat_ofInt_zero, Parts.isInteger, Parts.truncate]
  · have habs : n.natAbs ≠ 0 := by omega
    have hlog : n.natAbs.log2 < 53 := (Nat.log2_lt habs).2 hn
    have hlt : intMantissa n.natAbs < pow2 53 := by
      have hscaled := scaled_lt n.natAbs 52
      rw [show n.natAbs.log2 - 52 = 0 by omega, pow_zero, Nat.div_one] at hscaled
      rw [intMantissa_of_lt habs hn]
      exact hscaled
    have hparts := ofFloat_ofInt h0 (hn.trans (by decide))
    rw [ofBits_normal _ (by omega) (le_intMantissa habs) hlt, intMantissa_of_lt habs hn] at hparts
    have hup : ((↑(n.natAbs.log2 + 1022) : Int) - 1074).toNat = 0 := by omega
    have hdown : (-((↑(n.natAbs.log2 + 1022) : Int) - 1074)).toNat = 52 - n.natAbs.log2 := by omega
    have hpos : 0 < pow2 (52 - n.natAbs.log2) := by
      simp only [pow2, Nat.pow_eq]
      positivity
    rw [hparts]
    simp only [Parts.isInteger, Parts.truncate, hup, hdown]
    constructor
    · simp
    · rw [show pow2 0 = 1 from rfl, mul_one, Nat.mul_div_cancel _ hpos]
      by_cases hneg : n < 0
      · simp only [hneg, decide_true, if_true]
        omega
      · simp only [hneg, decide_false, Bool.false_eq_true, if_false]
        omega

theorem natAbs_truncate (s : Bool) (m e : Nat) :
    (Parts.finite s m e).truncate.natAbs = m * pow2 e := by
  have hzero : (-(e : Int)).toNat = 0 := by omega
  simp only [Parts.truncate, Int.toNat_natCast, hzero, show pow2 0 = 1 from rfl, Nat.div_one]
  cases s
  · exact Int.natAbs_natCast _
  · exact (Int.natAbs_neg _).trans (Int.natAbs_natCast _)

/-- An integer that does not fit the mantissa becomes no smaller than those that do. -/
theorem le_truncate_ofInt {n : Int} (hlow : pow2 53 ≤ n.natAbs) (hn : n.natAbs < pow2 64) :
    pow2 53 ≤ (Parts.ofFloat (ofInt n)).truncate.natAbs := by
  have habs : n.natAbs ≠ 0 := by
    simp only [pow2, Nat.pow_eq] at hlow
    omega
  have hlog : 53 ≤ n.natAbs.log2 := (Nat.le_log2 habs).2 hlow
  have hlog' : n.natAbs.log2 < 64 := (Nat.log2_lt habs).2 hn
  have hparts := ofFloat_ofInt (by omega) hn
  obtain ⟨e, he⟩ := Nat.exists_eq_add_of_le hlog
  have htwo : pow2 53 ≤ pow2 52 * pow2 (e + 1) := by
    simp only [pow2, Nat.pow_eq]
    rw [← pow_add]
    exact Nat.pow_le_pow_right (by decide) (by omega)
  rcases (intMantissa_le n.natAbs).lt_or_eq with hlt | heq
  · rw [ofBits_normal _ (by omega) (le_intMantissa habs) hlt,
      show ((↑(n.natAbs.log2 + 1022) : Int) - 1074) = ↑(e + 1) by omega] at hparts
    rw [hparts, natAbs_truncate]
    exact htwo.trans (Nat.mul_le_mul_right _ (le_intMantissa habs))
  · -- The mantissa rounds up to `2 ^ 53` and carries into the exponent.
    have hcarry : (n.natAbs.log2 + 1022) * pow2 52 + pow2 53 =
        (n.natAbs.log2 + 1023) * pow2 52 + pow2 52 := by
      simp only [pow2, Nat.pow_eq]
      omega
    rw [heq, hcarry, ofBits_normal _ (by omega) le_rfl (by decide),
      show ((↑(n.natAbs.log2 + 1023) : Int) - 1074) = ↑(e + 2) by omega] at hparts
    rw [hparts, natAbs_truncate]
    refine htwo.trans (Nat.mul_le_mul_left _ ?_)
    simp only [pow2, Nat.pow_eq]
    exact Nat.pow_le_pow_right (by decide) (by omega)

end Sigil.Number
