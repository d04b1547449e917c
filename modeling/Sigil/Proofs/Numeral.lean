import Mathlib.Algebra.Order.Ring.Nat
import Mathlib.Tactic.Positivity
import Mathlib.Tactic.Ring
import Sigil.Json.Writer
import Sigil.Value.Coercion

/-!
# Numerals read back

Decimal digits give back the number that they were made from. Doubles are written with a point or a
power of ten wherever a whole number keeps its point, and such a text is no integer's; without that
point a double is written like its shortest decimal (`write_eq_intText`).
-/

namespace Sigil.Number

/-! ## Runs of digits -/

theorem digitsValue_append (acc : Nat) (xs ys : List Char) :
    digitsValue acc (xs ++ ys) = digitsValue (digitsValue acc xs) ys :=
  List.foldl_append

theorem digitsValue_digitChar (acc : Nat) {d : Nat} (hd : d < 10) :
    digitsValue acc [d.digitChar] = 10 * acc + d := by
  have hchar : d.digitChar.toNat - '0'.toNat = d := by
    revert d
    decide
  simp only [digitsValue, List.foldl_cons, List.foldl_nil, hchar]

theorem digitsValue_toDigits (n : Nat) : digitsValue 0 (Nat.toDigits 10 n) = n := by
  induction n using Nat.strongRecOn with
  | ind n ih =>
    rw [Nat.toDigits_eq_if (by decide)]
    split
    · rename_i hn
      rw [digitsValue_digitChar 0 hn]
      omega
    · rw [digitsValue_append, ih (n / 10) (by omega),
        digitsValue_digitChar _ (Nat.mod_lt n (by decide))]
      omega

theorem digitsValue_zeros (acc k : Nat) :
    digitsValue acc (List.replicate k '0') = acc * 10 ^ k := by
  induction k generalizing acc with
  | zero => simp [digitsValue]
  | succ k ih =>
    rw [List.replicate_succ, ← List.singleton_append, digitsValue_append, ih]
    simp only [digitsValue, List.foldl_cons, List.foldl_nil, Nat.sub_self]
    ring

/-- Zeros at the end multiply by a power of ten. -/
theorem toDigits_mul_pow {n : Nat} (hn : n ≠ 0) (k : Nat) :
    Nat.toDigits 10 (n * 10 ^ k) = Nat.toDigits 10 n ++ List.replicate k '0' := by
  induction k with
  | zero => simp
  | succ k ih =>
    have hpos : 0 < n * 10 ^ k := by positivity
    have hten : n * 10 ^ (k + 1) = 10 * (n * 10 ^ k) + 0 := by ring
    rw [hten, ← Nat.toDigits_append_toDigits (by decide) hpos (by decide), ih,
      Nat.toDigits_zero, List.append_assoc, List.replicate_succ']

theorem isDigit_of_mem_toDigits {c : Char} {n : Nat} (hc : c ∈ Nat.toDigits 10 n) :
    c.isDigit = true :=
  Nat.isDigit_of_mem_toDigits (by decide) (by decide) hc

theorem readNat?_toDigits (n : Nat) : readNat? (Nat.toDigits 10 n) = some n := by
  have hempty : (Nat.toDigits 10 n).isEmpty = false := by
    rw [List.isEmpty_eq_false_iff]
    exact Nat.toDigits_ne_nil
  have hdigits : (Nat.toDigits 10 n).any (!·.isDigit) = false := by
    simp only [List.any_eq_false, Bool.not_eq_true', Bool.not_eq_false]
    intro c hc
    exact isDigit_of_mem_toDigits hc
  rw [readNat?, hempty, hdigits, digitsValue_toDigits]
  rfl

theorem splitSign_toDigits (n : Nat) :
    splitSign (Nat.toDigits 10 n) = (false, Nat.toDigits 10 n) := by
  have hsign {c : Char} (hc : c ∈ Nat.toDigits 10 n) : c ≠ '-' ∧ c ≠ '+' := by
    have hdigit := isDigit_of_mem_toDigits hc
    constructor <;> rintro rfl <;> cases hdigit
  unfold splitSign
  split
  · rename_i heq
    exact absurd rfl (hsign (heq ▸ List.mem_cons_self)).1
  · rename_i heq
    exact absurd rfl (hsign (heq ▸ List.mem_cons_self)).2
  · rfl

/-! ## Written doubles -/

/-- The characters of a numeral. -/
def isNumeralChar (c : Char) : Bool := c.isDigit || c = '-' || c = '+' || c = '.' || c = 'e'

theorem isNumeralChar_of_mem_toDigits {c : Char} {n : Nat} (hc : c ∈ Nat.toDigits 10 n) :
    isNumeralChar c = true := by
  simp [isNumeralChar, isDigit_of_mem_toDigits hc]

namespace Style

variable (st : Style)

theorem isNumeralChar_positionalText {digits : List Char}
    (hd : ∀ c ∈ digits, isNumeralChar c = true) (exponent : Int) :
    ∀ c ∈ st.positionalText digits exponent, isNumeralChar c = true := by
  have hzero : isNumeralChar '0' = true := by decide
  have hpoint : isNumeralChar '.' = true := by decide
  intro c hc
  unfold positionalText at hc
  dsimp only at hc
  split_ifs at hc <;>
    simp only [List.mem_append, List.mem_cons, List.mem_replicate, List.not_mem_nil, or_false] at hc
  · rcases hc with (hc | ⟨-, rfl⟩) | rfl | rfl
    · exact hd c hc
    all_goals assumption
  · rcases hc with hc | ⟨-, rfl⟩
    · exact hd c hc
    · exact hzero
  · rcases hc with hc | rfl | hc
    · exact hd c (List.mem_of_mem_take hc)
    · exact hpoint
    · exact hd c (List.mem_of_mem_drop hc)
  · rcases hc with (rfl | rfl | ⟨-, rfl⟩) | hc
    · exact hzero
    · exact hpoint
    · exact hzero
    · exact hd c hc

theorem isNumeralChar_exponentText {digits : List Char}
    (hd : ∀ c ∈ digits, isNumeralChar c = true) (power : Int) :
    ∀ c ∈ exponentText digits power, isNumeralChar c = true := by
  intro c hc
  simp only [exponentText, List.mem_append, List.mem_cons] at hc
  rcases hc with hc | rfl | rfl | hc
  · split at hc
    · simp only [List.mem_cons] at hc hd
      rcases hc with rfl | rfl | hc
      · exact hd c (.inl rfl)
      · decide
      · exact hd c (.inr hc)
    · exact hd c hc
  · decide
  · split <;> decide
  · exact isNumeralChar_of_mem_toDigits hc

/-- A finite double is written with the characters of a numeral. -/
theorem isNumeralChar_write {x : Float} (hx : (Parts.ofFloat x).isFinite = true) :
    ∀ c ∈ st.write x, isNumeralChar c = true := by
  have hdigits (n : Nat) : ∀ c ∈ Nat.toDigits 10 n, isNumeralChar c = true := fun c =>
    isNumeralChar_of_mem_toDigits
  intro c hc
  unfold write at hc
  cases hparts : Parts.ofFloat x with
  | nan => simp [hparts, Parts.isFinite] at hx
  | infinite negative => simp [hparts, Parts.isFinite] at hx
  | finite negative m e =>
    simp only [hparts] at hc
    split_ifs at hc
    · rcases List.mem_cons.1 hc with rfl | hc
      · decide
      · exact isNumeralChar_positionalText st (hdigits _) _ c hc
    · rcases List.mem_cons.1 hc with rfl | hc
      · decide
      · exact isNumeralChar_exponentText (hdigits _) _ c hc
    · exact isNumeralChar_positionalText st (hdigits _) _ c hc
    · exact isNumeralChar_exponentText (hdigits _) _ c hc

theorem point_mem_positionalText (hp : st.pointed = true) (digits : List Char) (exponent : Int) :
    '.' ∈ st.positionalText digits exponent := by
  unfold positionalText
  dsimp only
  split_ifs <;> simp_all

/-- Where whole numbers keep their point, a double has a point or a power of ten. -/
theorem exists_mark_mem_write (hp : st.pointed = true) {x : Float}
    (hx : (Parts.ofFloat x).isFinite = true) : '.' ∈ st.write x ∨ 'e' ∈ st.write x := by
  unfold write
  cases hparts : Parts.ofFloat x with
  | nan => simp [hparts, Parts.isFinite] at hx
  | infinite negative => simp [hparts, Parts.isFinite] at hx
  | finite negative m e =>
    dsimp only
    have hpoint := point_mem_positionalText st hp
    have hmark (digits : List Char) (power : Int) : 'e' ∈ exponentText digits power := by
      simp [exponentText]
    split_ifs
    · exact .inl (List.mem_cons_of_mem _ (hpoint _ _))
    · exact .inr (List.mem_cons_of_mem _ (hmark _ _))
    · exact .inl (hpoint _ _)
    · exact .inr (hmark _ _)

end Style

end Sigil.Number

namespace Sigil.Json

open Sigil.Number

/-! ## Written integers -/

theorem mem_intText {c : Char} {n : Int} (hc : c ∈ intText n) : c = '-' ∨ c.isDigit = true := by
  unfold intText at hc
  split at hc
  · rcases List.mem_cons.1 hc with rfl | hc
    · exact .inl rfl
    · exact .inr (isDigit_of_mem_toDigits hc)
  · exact .inr (isDigit_of_mem_toDigits hc)

theorem minus_not_mem_toDigits (n : Nat) : '-' ∉ Nat.toDigits 10 n := fun h => by
  have := isDigit_of_mem_toDigits h
  revert this
  decide

theorem readInt?_intText (n : Int) : readInt? (intText n) = some n := by
  unfold intText
  split
  · rename_i hn
    simp only [readInt?, splitSign, readNat?_toDigits, if_true]
    exact congrArg some (Int.eq_neg_natAbs_of_nonpos (Int.le_of_lt hn)).symm
  · rename_i hn
    simp only [readInt?, splitSign_toDigits, readNat?_toDigits, Bool.false_eq_true, if_false]
    exact congrArg some (Int.natAbs_of_nonneg (Int.not_lt.1 hn))

theorem readInt64?_intText (n : Int64) : readInt64? (intText n.toInt) = some n := by
  have hrange : Int64.minValue.toInt ≤ n.toInt ∧ n.toInt ≤ Int64.maxValue.toInt :=
    ⟨Int64.minValue_le_toInt n, Int64.toInt_le n⟩
  rw [readInt64?, readInt?_intText, Option.bind_some, if_pos hrange, Int64.ofInt_toInt]

theorem readWord?_toDigits {n : Nat} (hn : n < pow2 64) :
    readWord? (Nat.toDigits 10 n) = some n := by
  unfold readWord?
  split
  · rename_i rest heq
    have hplus := isDigit_of_mem_toDigits (heq ▸ List.mem_cons_self : '+' ∈ Nat.toDigits 10 n)
    cases hplus
  · dsimp only
    rw [readNat?_toDigits, Option.bind_some, if_pos hn]

/-- The numeral of an integer is a position if the integer is one. -/
theorem readWord?_intText (n : Int64) :
    readWord? (intText n.toInt) = if 0 ≤ n.toInt then some n.toInt.toNat else none := by
  unfold intText
  split
  · rename_i hn
    rw [if_neg (by omega)]
    rfl
  · rename_i hn
    have hbound : n.toInt.natAbs < pow2 64 := by
      have hlt := n.toInt_lt
      have hpow : pow2 64 = 2 ^ 64 := rfl
      omega
    rw [if_pos (by omega), readWord?_toDigits hbound]
    congr 1
    omega

theorem isBlank_of_isDigit {c : Char} (hc : c.isDigit = true) : Text.isBlank c = false := by
  have hrange : 48 ≤ c.toNat ∧ c.toNat ≤ 57 := by
    simp only [Char.isDigit, Bool.and_eq_true, decide_eq_true_eq, ge_iff_le] at hc
    exact ⟨UInt32.le_iff_toNat_le.1 hc.1, UInt32.le_iff_toNat_le.1 hc.2⟩
  simp only [Text.isBlank, Bool.or_eq_false_iff, Bool.and_eq_false_iff, decide_eq_false_iff_not,
    beq_eq_false_iff_ne]
  omega

theorem isBlank_of_mem_intText {c : Char} {n : Int} (hc : c ∈ intText n) :
    Text.isBlank c = false := by
  rcases mem_intText hc with rfl | hdigit
  · decide
  · exact isBlank_of_isDigit hdigit

theorem trim_intText (n : Int) : Text.trim (intText n) = intText n := by
  have hdrop {cs : List Char} (hcs : ∀ c ∈ cs, c ∈ intText n) :
      cs.dropWhile Text.isBlank = cs := by
    cases cs with
    | nil => rfl
    | cons c cs => simp [isBlank_of_mem_intText (hcs c List.mem_cons_self)]
  rw [Text.trim, hdrop fun _ hc => hc, hdrop fun _ hc => List.mem_reverse.1 hc,
    List.reverse_reverse]

/-- The shortest decimal of a double is the integer `n`. -/
def ShortestIs (tie : Tie) (x : Float) (n : Int) : Prop :=
  match Parts.ofFloat x with
  | .finite negative m e =>
    0 ≤ (shortest tie m e).2 ∧ n = (if negative then -1 else 1) *
      ((shortest tie m e).1 * 10 ^ (shortest tie m e).2.toNat : Nat)
  | _ => False

/-- A numeral of a number other than zero is its digits and the zeros of its power of ten. -/
theorem signed_zeros_eq_intText {n : Int} (hn : n ≠ 0) (negative : Bool) (d k : Nat) :
    (if negative then '-' :: (Nat.toDigits 10 d ++ List.replicate k '0')
      else Nat.toDigits 10 d ++ List.replicate k '0') = intText n ↔
      n = (if negative then -1 else 1) * (d * 10 ^ k : Nat) := by
  have hvalue : digitsValue 0 (Nat.toDigits 10 d ++ List.replicate k '0') = d * 10 ^ k := by
    rw [digitsValue_append, digitsValue_toDigits, digitsValue_zeros]
  have hminus : '-' ∉ Nat.toDigits 10 d ++ List.replicate k '0' := by
    simp [minus_not_mem_toDigits]
  have hsame {m : Nat} (h : Nat.toDigits 10 d ++ List.replicate k '0' = Nat.toDigits 10 m) :
      m = d * 10 ^ k := by
    rw [← hvalue, h, digitsValue_toDigits]
  constructor
  · intro h
    unfold intText at h
    cases negative
    · simp only [Bool.false_eq_true, if_false] at h ⊢
      split at h
      · exact absurd (h ▸ List.mem_cons_self) hminus
      · have := hsame h
        omega
    · simp only [if_true] at h ⊢
      split at h
      · have := hsame (List.cons.inj h).2
        omega
      · exact absurd (h ▸ List.mem_cons_self) (minus_not_mem_toDigits _)
  · intro h
    have hd : d ≠ 0 := by
      rintro rfl
      simp at h
      exact hn h
    have hpos : 0 < d * 10 ^ k := by positivity
    rw [← toDigits_mul_pow hd, intText]
    cases negative
    · simp only [Bool.false_eq_true, if_false] at h ⊢
      rw [if_neg (by omega), show n.natAbs = d * 10 ^ k by omega]
    · simp only [if_true] at h ⊢
      rw [if_pos (by omega), show n.natAbs = d * 10 ^ k by omega]

/-- Written positionally and without a point after whole numbers, a double looks like an integer
other than zero only if that is its shortest decimal. -/
theorem write_eq_intText {st : Style} (hall : ∀ power, st.positional power = true)
    (hp : st.pointed = false) {x : Float} {n : Int} (hn : n ≠ 0) :
    st.write x = intText n ↔ ShortestIs st.tie x n := by
  have hnot {c : Char} (hc : c ∈ st.write x) (hi : ¬(c = '-' ∨ c.isDigit = true)) :
      ¬st.write x = intText n := fun h => hi (mem_intText (h ▸ hc))
  unfold ShortestIs
  cases hparts : Parts.ofFloat x with
  | nan =>
    simp only [iff_false]
    exact hnot (c := 'N') (by simp [Style.write, hparts]) (by decide)
  | infinite negative =>
    simp only [iff_false]
    refine hnot (c := 'i') ?_ (by decide)
    simp only [Style.write, hparts]
    split <;> simp
  | finite negative m e =>
    have hwrite : st.write x =
        (if negative then '-' :: st.positionalText (Nat.toDigits 10 (shortest st.tie m e).1)
            (shortest st.tie m e).2
          else st.positionalText (Nat.toDigits 10 (shortest st.tie m e).1)
            (shortest st.tie m e).2) := by
      simp only [Style.write, hparts, hall, if_true]
    by_cases hk : 0 ≤ (shortest st.tie m e).2
    · simp only [hk, true_and]
      rw [hwrite, ← signed_zeros_eq_intText hn]
      simp [Style.positionalText, hk, hp]
    · simp only [hk, false_and, iff_false]
      refine hnot (c := '.') ?_ (by decide)
      have hpoint : '.' ∈ st.positionalText (Nat.toDigits 10 (shortest st.tie m e).1)
          (shortest st.tie m e).2 := by
        simp only [Style.positionalText, hk, if_false]
        split <;> simp
      rw [hwrite]
      split
      · exact List.mem_cons_of_mem _ hpoint
      · exact hpoint

end Sigil.Json

/-- The numeral of an integer coerces to it, without becoming a double. -/
theorem Sigil.Value.intOfText?_intText (n : Int64) :
    intOfText? (String.ofList (Json.intText n.toInt)) = some n := by
  rw [intOfText?, String.toList_ofList, Json.trim_intText, Json.readInt64?_intText]
  rfl
