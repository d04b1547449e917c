import Mathlib.Data.List.Forall2
import Mathlib.Data.List.Perm.Subperm
import Sigil.Value.Equality

/-!
# Structural equality is bisimilarity

A comparison remembers only the pairs of containers above the one in hand and takes a pair that it
meets again to be equal. `structEq_iff_bisimilar` says that nothing is lost by that, whatever the
sharing and the cycles: the answer is yes exactly if some relation contains the two values and only
relates values that look alike one level deep.

The relation that an answer of yes leaves behind is justified only below the open pairs
(`BisimilarBelow`); closing a pair discharges it.
-/

namespace Sigil

def Container.toValue : Container → Value
  | .list r => .list r
  | .map r => .map r

namespace Value

variable {h : Heap} {R S : Value → Value → Prop} {open_ : List (Container × Container)}

/-- Two values look alike one level deep, with `R` for what is inside them: they are one container,
equal scalars, lists of one length with related elements, or maps of the same fields, in any order,
with related values. -/
inductive Matched (h : Heap) (R : Value → Value → Prop) : Value → Value → Prop where
  | sameList (r : ListRef) : Matched h R (.list r) (.list r)
  | sameMap (r : MapRef) : Matched h R (.map r) (.map r)
  | scalar {x y : Value} : scalarEqual x y = true → Matched h R x y
  | list {a b : ListRef} : List.Forall₂ R (h.list a) (h.list b) → Matched h R (.list a) (.list b)
  | map {a b : MapRef} : (∀ k, k ∈ (h.map a).keys ↔ k ∈ (h.map b).keys) →
      (∀ k x y, (h.map a).get? k = some x → (h.map b).get? k = some y → R x y) →
      Matched h R (.map a) (.map b)

theorem Matched.mono (hRS : ∀ x y, R x y → S x y) {x y : Value} (hm : Matched h R x y) :
    Matched h S x y := by
  cases hm with
  | sameList r => exact .sameList r
  | sameMap r => exact .sameMap r
  | scalar hs => exact .scalar hs
  | list hl => exact .list (hl.imp hRS)
  | map hk hv => exact .map hk fun k x y hx hy => hRS x y (hv k x y hx hy)

def IsBisimulation (h : Heap) (R : Value → Value → Prop) : Prop := ∀ x y, R x y → Matched h R x y

def Bisimilar (h : Heap) (a b : Value) : Prop := ∃ R, IsBisimulation h R ∧ R a b

/-! ## Maps of one size -/

/-- No name occurs twice, so a map that holds all fields of another one of its size holds no
more. -/
theorem same_keys_of_size {f g : Fields Value} (hsize : f.size = g.size)
    (hsub : ∀ k ∈ f.keys, k ∈ g.keys) (k : String) : k ∈ f.keys ↔ k ∈ g.keys := by
  have hsubperm : f.keys.Subperm g.keys := List.subperm_of_subset f.nodup_keys hsub
  exact (hsubperm.perm_of_length_le (by simp [hsize])).mem_iff

theorem size_eq_of_same_keys {f g : Fields Value} (hk : ∀ k, k ∈ f.keys ↔ k ∈ g.keys) :
    f.size = g.size := by
  have hperm : f.keys.Perm g.keys :=
    (List.perm_ext_iff_of_nodup f.nodup_keys g.nodup_keys).2 hk
  simpa using hperm.length_eq

/-! ## From an answer to a relation -/

/-- Two values are a pair of containers being compared. -/
def Opened (open_ : List (Container × Container)) (x y : Value) : Prop :=
  ∃ p ∈ open_, x = p.1.toValue ∧ y = p.2.toValue

/-- Bisimilar if the open pairs are. -/
def BisimilarBelow (h : Heap) (open_ : List (Container × Container)) (a b : Value) : Prop :=
  ∃ R : Value → Value → Prop, (∀ x y, R x y → Opened open_ x y ∨ Matched h R x y) ∧ R a b

theorem BisimilarBelow.matched {a b : Value} (hb : BisimilarBelow h open_ a b) :
    Opened open_ a b ∨ Matched h (BisimilarBelow h open_) a b := by
  obtain ⟨R, hR, hab⟩ := hb
  exact (hR a b hab).imp_right fun hm => hm.mono fun x y hxy => ⟨R, hR, hxy⟩

theorem BisimilarBelow.of_opened {a b : Value} (ho : Opened open_ a b) :
    BisimilarBelow h open_ a b :=
  ⟨Opened open_, fun _ _ => .inl, ho⟩

theorem BisimilarBelow.of_matched {a b : Value} (hm : Matched h (BisimilarBelow h open_) a b) :
    BisimilarBelow h open_ a b := by
  refine ⟨fun x y => BisimilarBelow h open_ x y ∨ x = a ∧ y = b, ?_, .inr ⟨rfl, rfl⟩⟩
  rintro x y (hxy | ⟨rfl, rfl⟩)
  · exact hxy.matched.imp_right fun hm => hm.mono fun _ _ => .inl
  · exact .inr (hm.mono fun _ _ => .inl)

/-- A pair is closed once what is inside it is bisimilar below it. -/
theorem BisimilarBelow.close {c d : Container}
    (hm : Matched h (BisimilarBelow h ((c, d) :: open_)) c.toValue d.toValue) :
    BisimilarBelow h open_ c.toValue d.toValue := by
  refine ⟨fun x y => BisimilarBelow h ((c, d) :: open_) x y ∨ x = c.toValue ∧ y = d.toValue, ?_,
    .inr ⟨rfl, rfl⟩⟩
  have hroot : Matched h (fun x y => BisimilarBelow h ((c, d) :: open_) x y ∨
      x = c.toValue ∧ y = d.toValue) c.toValue d.toValue := hm.mono fun _ _ => .inl
  rintro x y (hxy | ⟨rfl, rfl⟩)
  · rcases hxy.matched with ⟨p, hp, rfl, rfl⟩ | hm'
    · rcases List.mem_cons.1 hp with rfl | hp
      · exact .inr hroot
      · exact .inl ⟨p, hp, rfl, rfl⟩
    · exact .inr (hm'.mono fun _ _ => .inl)
  · exact .inr hroot

theorem BisimilarBelow.bisimilar {a b : Value} (hb : BisimilarBelow h [] a b) :
    Bisimilar h a b := by
  obtain ⟨R, hR, hab⟩ := hb
  refine ⟨R, fun x y hxy => (hR x y hxy).resolve_left ?_, hab⟩
  rintro ⟨p, hp, -⟩
  cases hp

/-- Induction on the comparison. A pair met again is open; a pair that is opened is closed by what
the comparison of its parts left behind. -/
theorem bisimilarBelow_of_equalBelow {a b : Value} (he : equalBelow h open_ a b = true) :
    BisimilarBelow h open_ a b := by
  induction open_, a, b using equalBelow.induct h with
  | case1 open_ a b hp =>
    rcases hp with rfl | hp
    · exact .of_matched (.sameList a)
    · exact .of_opened ⟨_, hp, rfl, rfl⟩
  | case2 open_ a b hp ih =>
    obtain ⟨hlen, hall⟩ := (equalBelow_list.1 he).resolve_left hp
    refine BisimilarBelow.close (c := .list a) (d := .list b) (.list ?_)
    exact List.forall₂_iff_zip.2 ⟨hlen, fun he => ih _ he (hall _ he)⟩
  | case3 open_ a b hp =>
    rcases hp with rfl | hp
    · exact .of_matched (.sameMap a)
    · exact .of_opened ⟨_, hp, rfl, rfl⟩
  | case4 open_ a b hp ih =>
    obtain ⟨hsize, hall⟩ := (equalBelow_map.1 he).resolve_left hp
    refine BisimilarBelow.close (c := .map a) (d := .map b) (.map ?_ ?_)
    · refine same_keys_of_size hsize fun k hk => ?_
      obtain ⟨x, hx⟩ := Fields.mem_keys.1 hk
      obtain ⟨y, hy, -⟩ := hall (k, x) (Fields.mem_entries.2 hx)
      exact Fields.mem_keys.2 ⟨y, hy⟩
    · intro k x y hx hy
      have hmem := Fields.mem_entries.2 hx
      obtain ⟨y', hy', hxy⟩ := hall (k, x) hmem
      obtain rfl : y = y' := Option.some.inj (hy.symm.trans hy')
      exact ih (k, x) hmem y hy hxy
  | case5 open_ x y hl hm =>
    rw [equalBelow.eq_3 _ _ _ _ hl hm] at he
    exact .of_matched (.scalar he)

/-! ## From a relation to an answer -/

theorem equalBelow_of_scalarEqual {x y : Value} (hs : scalarEqual x y = true) :
    equalBelow h open_ x y = true := by
  rw [equalBelow.eq_3]
  · exact hs
  · rintro a b rfl rfl
    cases hs
  · rintro a b rfl rfl
    cases hs

/-- A bisimulation answers every question of the comparison with yes, whatever pairs are open. -/
theorem IsBisimulation.equalBelow (hR : IsBisimulation h R) {a b : Value} (hab : R a b) :
    equalBelow h open_ a b = true := by
  induction open_, a, b using equalBelow.induct h with
  | case1 open_ a b hp => exact equalBelow_list.2 (.inl hp)
  | case2 open_ a b hp ih =>
    refine equalBelow_list.2 (.inr ?_)
    cases hR _ _ hab with
    | sameList => exact absurd (.inl rfl) hp
    | scalar hs => cases hs
    | list hl =>
      obtain ⟨hlen, hall⟩ := List.forall₂_iff_zip.1 hl
      exact ⟨hlen, fun e he => ih e he (hall he)⟩
  | case3 open_ a b hp => exact equalBelow_map.2 (.inl hp)
  | case4 open_ a b hp ih =>
    refine equalBelow_map.2 (.inr ?_)
    cases hR _ _ hab with
    | sameMap => exact absurd (.inl rfl) hp
    | scalar hs => cases hs
    | map hk hv =>
      refine ⟨size_eq_of_same_keys hk, fun e he => ?_⟩
      have hx := Fields.mem_entries.1 he
      obtain ⟨y, hy⟩ := Fields.mem_keys.1 ((hk e.1).1 (Fields.mem_keys.2 ⟨e.2, hx⟩))
      exact ⟨y, hy, ih e he y hy (hv e.1 e.2 y hx hy)⟩
  | case5 open_ x y hl hm =>
    cases hR x y hab with
    | sameList r => exact (hl r r rfl rfl).elim
    | sameMap r => exact (hm r r rfl rfl).elim
    | scalar hs => exact equalBelow_of_scalarEqual hs
    | list => exact (hl _ _ rfl rfl).elim
    | map => exact (hm _ _ rfl rfl).elim

/-- Structural equality ends with yes exactly on bisimilar values. -/
theorem structEq_iff_bisimilar (h : Heap) (a b : Value) :
    structEq h a b = true ↔ Bisimilar h a b := by
  constructor
  · intro he
    exact (bisimilarBelow_of_equalBelow he).bisimilar
  · rintro ⟨R, hR, hab⟩
    exact hR.equalBelow hab

end Value

end Sigil
