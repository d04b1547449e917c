import Mathlib
import Sigil.Json.Basic

/-!
# Equality of documents

Two objects are equal if they have one number of fields and every field of the first has an equal
one in the second. Since no name occurs twice, the second then has no further field, so equality
does not depend on the side from which it is tested (`same_symm`) and passes along a chain
(`same_trans`). It is not reflexive in general: a double that is no number differs from itself.
-/

namespace Sigil

theorem lookup_eq_some_iff_mem {α : Type} {name : String} {value : α} {es : List (String × α)}
    (hes : (es.map Prod.fst).Nodup) : es.lookup name = some value ↔ (name, value) ∈ es :=
  (Fields.mem_entries (f := ⟨es, hes⟩)).symm

namespace Json

theorem wellFormedFields_iff {fields : List (String × Json)} :
    WellFormedFields fields ↔ ∀ e ∈ fields, e.2.WellFormed := by
  induction fields with
  | nil => simp [WellFormedFields]
  | cons e rest ih => simp [WellFormedFields, ih]

theorem sameFields_iff {as bs : List (String × Json)} :
    sameFields as bs = true ↔ ∀ e ∈ as, ∃ b, bs.lookup e.1 = some b ∧ same e.2 b = true := by
  induction as with
  | nil => simp [sameFields]
  | cons e rest ih =>
    rw [sameFields, Bool.and_eq_true, ih, List.forall_mem_cons]
    refine and_congr_left fun _ => ?_
    cases bs.lookup e.1 <;> simp

/-- Equal objects have the same names, in any order. -/
theorem mem_keys_of_sameFields {as bs : List (String × Json)} (has : (as.map Prod.fst).Nodup)
    (hlen : as.length = bs.length) (h : sameFields as bs = true) {name : String}
    (hname : name ∈ bs.map Prod.fst) : name ∈ as.map Prod.fst := by
  have hsub : as.map Prod.fst ⊆ bs.map Prod.fst := by
    intro k hk
    obtain ⟨e, he, rfl⟩ := List.mem_map.1 hk
    obtain ⟨b, hb, -⟩ := sameFields_iff.1 h e he
    exact List.mem_map.2 ⟨_, mem_of_lookup hb, rfl⟩
  have hperm := (List.subperm_of_subset has hsub).perm_of_length_le (by simp [hlen])
  exact hperm.mem_iff.2 hname

/-- Null, truth values, integers and texts. -/
def isExact : Json → Bool
  | .null | .bool _ | .int _ | .string _ => true
  | _ => false

theorem eq_of_same {a b : Json} (hexact : a.isExact = true ∨ b.isExact = true)
    (h : same a b = true) : a = b := by
  cases a <;> cases b <;> simp_all [same, isExact]

mutual

theorem same_symm {a b : Json} (ha : a.WellFormed) (hb : b.WellFormed) (h : same a b = true) :
    same b a = true := by
  cases a with
  | array as =>
    cases b with
    | array bs => exact sameItems_symm as bs ha hb h
    | _ => cases h
  | object as =>
    cases b with
    | object bs =>
      rw [same, Bool.and_eq_true, beq_iff_eq] at h ⊢
      refine ⟨h.1.symm, sameFields_iff.2 fun ⟨k, y⟩ hy => ?_⟩
      have hk := mem_keys_of_sameFields ha.1 h.1 h.2 (List.mem_map.2 ⟨_, hy, rfl⟩)
      obtain ⟨⟨_, x⟩, hx, rfl⟩ := List.mem_map.1 hk
      obtain ⟨y', hy', hxy⟩ := sameFields_iff.1 h.2 _ hx
      -- The name stands once on the right, so the value found there is the one in hand.
      obtain rfl : y' = y := by
        have hlookup := (lookup_eq_some_iff_mem hb.1).2 hy
        exact Option.some.inj (hy'.symm.trans hlookup)
      have hwf := wellFormedFields_iff.1 hb.2 _ hy
      exact ⟨x, (lookup_eq_some_iff_mem ha.1).2 hx, same_symm_field as ha.2 _ hx hwf hxy⟩
    | _ => cases h
  | float x =>
    cases b with
    | float y =>
      simp only [same, Float.beq_iff_ne_nan_and_eq] at h ⊢
      grind
    | _ => cases h
  | null | bool | int | string =>
    obtain rfl := eq_of_same (.inl rfl) h
    exact h

theorem sameItems_symm (as bs : List Json) (has : WellFormedItems as) (hbs : WellFormedItems bs)
    (h : sameItems as bs = true) : sameItems bs as = true := by
  match as, bs with
  | [], [] => rfl
  | a :: as, b :: bs =>
    rw [sameItems, Bool.and_eq_true] at h ⊢
    exact ⟨same_symm has.1 hbs.1 h.1, sameItems_symm as bs has.2 hbs.2 h.2⟩
  | [], _ :: _ | _ :: _, [] => cases h

theorem same_symm_field (as : List (String × Json)) (has : WellFormedFields as) :
    ∀ e ∈ as, ∀ {b : Json}, b.WellFormed → same e.2 b = true → same b e.2 = true := by
  match as with
  | [] => exact fun e he => nomatch he
  | (_, a) :: as =>
    rw [List.forall_mem_cons]
    exact ⟨fun hb h => same_symm has.1 hb h, same_symm_field as has.2⟩

end

mutual

theorem same_trans {a b c : Json} (hab : same a b = true) (hbc : same b c = true) :
    same a c = true := by
  cases a with
  | array as =>
    cases b with
    | array bs =>
      cases c with
      | array cs => exact sameItems_trans as hab hbc
      | _ => cases hbc
    | _ => cases hab
  | object as =>
    cases b with
    | object bs =>
      cases c with
      | object cs =>
        rw [same, Bool.and_eq_true, beq_iff_eq] at hab hbc ⊢
        refine ⟨hab.1.trans hbc.1, sameFields_iff.2 fun e he => ?_⟩
        obtain ⟨y, hy, hxy⟩ := sameFields_iff.1 hab.2 e he
        obtain ⟨z, hz, hyz⟩ := sameFields_iff.1 hbc.2 _ (mem_of_lookup hy)
        exact ⟨z, hz, same_trans_field as e he hxy hyz⟩
      | _ => cases hbc
    | _ => cases hab
  | float x =>
    cases b with
    | float y =>
      cases c with
      | float z =>
        simp only [same, Float.beq_iff_ne_nan_and_eq] at hab hbc ⊢
        grind
      | _ => cases hbc
    | _ => cases hab
  | null | bool | int | string =>
    obtain rfl := eq_of_same (.inl rfl) hab
    exact hbc

theorem sameItems_trans (as : List Json) {bs cs : List Json} (hab : sameItems as bs = true)
    (hbc : sameItems bs cs = true) : sameItems as cs = true := by
  match as, bs, cs with
  | [], [], [] => rfl
  | a :: as, b :: bs, c :: cs =>
    rw [sameItems, Bool.and_eq_true] at hab hbc ⊢
    exact ⟨same_trans hab.1 hbc.1, sameItems_trans as hab.2 hbc.2⟩
  | [], _ :: _, _ | _ :: _, [], _ => cases hab
  | [], [], _ :: _ | _ :: _, _ :: _, [] => cases hbc

theorem same_trans_field (as : List (String × Json)) :
    ∀ e ∈ as, ∀ {b c : Json}, same e.2 b = true → same b c = true → same e.2 c = true := by
  match as with
  | [] => exact fun e he => nomatch he
  | (_, a) :: as =>
    rw [List.forall_mem_cons]
    exact ⟨fun hab hbc => same_trans hab hbc, same_trans_field as⟩

end

end Json

end Sigil
