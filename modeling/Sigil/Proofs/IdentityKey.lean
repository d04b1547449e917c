import Sigil.Proofs.Bisimulation
import Sigil.Proofs.DocumentText
import Sigil.Proofs.Double
import Sigil.Window

/-!
# Identity keys of equal values

Keys are texts, and structurally equal values need not have one text.
`identityKey_eq_iff_keyedAlike` says when they have: outside of containers an integer and an equal
double must be below `9e15` or share their decimal; inside of containers they never agree, nor do
the two zeros, maps with their fields in another order, or cycles that close at another place.
-/

namespace Sigil

open Number

/-- Two maps agree field by field in order exactly if their names do and their values under each
name. -/
theorem Fields.forall₂_entries {α β : Type} {f : Fields α} {g : Fields β} {R : α → β → Prop} :
    List.Forall₂ (fun d e => d.1 = e.1 ∧ R d.2 e.2) f.entries g.entries ↔
      f.keys = g.keys ∧ ∀ k x y, f.get? k = some x → g.get? k = some y → R x y := by
  constructor
  · intro hall
    have hkeys : f.keys = g.keys := by
      rw [← List.forall₂_eq_eq_eq]
      refine List.forall₂_map_left_iff.2 (List.forall₂_map_right_iff.2 ?_)
      exact hall.imp fun _ _ => And.left
    refine ⟨hkeys, fun k x y hx hy => ?_⟩
    obtain ⟨i, hi, hget⟩ := List.mem_iff_getElem.1 (Fields.mem_entries.2 hx)
    have hi' : i < g.entries.length := hall.length_eq ▸ hi
    obtain ⟨hname, hR⟩ := hall.get hi hi'
    simp only [List.get_eq_getElem, hget] at hname hR
    have hy' : g.get? k = some g.entries[i].2 :=
      Fields.mem_entries.1 (hname ▸ List.getElem_mem hi')
    rwa [Option.some.inj (hy.symm.trans hy')]
  · rintro ⟨hkeys, hall⟩
    have hlen : f.entries.length = g.entries.length := by
      simpa [Fields.keys] using congrArg List.length hkeys
    refine List.forall₂_iff_get.2 ⟨hlen, fun i hi hi' => ?_⟩
    have hname : f.entries[i].1 = g.entries[i].1 := by
      have := List.getElem_of_eq hkeys (by simpa [Fields.keys] using hi)
      simpa [Fields.keys] using this
    refine ⟨hname, hall f.entries[i].1 _ _ (Fields.mem_entries.1 (List.getElem_mem hi)) ?_⟩
    exact hname ▸ Fields.mem_entries.1 (List.getElem_mem hi')

namespace Windows

theorem accept_fst (ws : Windows) (kind : String) (capacity : Nat) (key : String) :
    (ws.accept kind capacity key).1 = !(ws.get kind capacity).contains key := by
  cases hmem : (ws.get kind capacity).contains key <;> simp [accept, Window.accept, hmem]

theorem get_accept (ws : Windows) (kind : String) (capacity : Nat) (key : String) :
    (ws.accept kind capacity key).2.get kind capacity =
      ((ws.get kind capacity).accept key).2 := by
  simp [accept, get]

/-- The window of a new kind remembers the one key that it has admitted. -/
theorem contains_accept_new {ws : Windows} {kind : String} (hnone : ws.get? kind = none)
    (capacity : Nat) (key other : String) :
    ((ws.accept kind capacity key).2.get kind capacity).contains other = (key == other) := by
  have hnew : ws.get kind capacity = { capacity } := by simp [get, hnone]
  rw [get_accept, hnew]
  simp [Window.accept, Window.contains, Window.makeRoom]

end Windows

namespace Json

theorem floatText_congr {x y : Float} (h : Parts.ofFloat x = Parts.ofFloat y) :
    floatText x = floatText y := by
  simp only [floatText, Style.write, h]

/-- Equal doubles are written alike, the two zeros apart. -/
theorem floatText_inj_of_beq {x y : Float} (hxy : (x == y) = true) :
    floatText x = floatText y ↔ Parts.ofFloat x = Parts.ofFloat y := by
  refine ⟨fun h => ?_, floatText_congr⟩
  rcases ofFloat_of_beq hxy with heq | ⟨s, t, hx, hy⟩
  · exact heq
  · rw [hx, hy]
    simp only [floatText, Style.write, hx, hy, Parts.isFinite, if_true] at h
    cases s <;> cases t
    · rfl
    · exact absurd h.symm (List.cons_ne_self _ _)
    · exact absurd h (List.cons_ne_self _ _)
    · rfl

/-- No double is written like an integer. -/
theorem intText_ne_floatText (n : Int) (x : Float) : intText n ≠ floatText x := by
  intro h
  have hmark {c : Char} (hc : c ∈ floatText x) : c = '-' ∨ c.isDigit = true :=
    mem_intText (h ▸ hc)
  unfold floatText at hmark
  split at hmark
  · rename_i hx
    rcases Style.exists_mark_mem_write floatStyle rfl hx with hc | hc
    · exact absurd (hmark hc) (by decide)
    · exact absurd (hmark hc) (by decide)
  · exact absurd (hmark List.mem_cons_self) (by decide)

theorem chars_string_ne_array (s : String) (items : List Json) :
    chars (.string s) ≠ chars (.array items) := fun h => by
  rw [← List.append_nil (chars (.array items))] at h
  cases leads_of_cons h.symm

theorem chars_string_ne_object (s : String) (fields : List (String × Json)) :
    chars (.string s) ≠ chars (.object fields) := fun h => by
  rw [← List.append_nil (chars (.object fields))] at h
  cases leads_of_cons h.symm

end Json

namespace Value

/-! ## Keys of numbers -/

theorem floatKey_congr {x y : Float} (h : Parts.ofFloat x = Parts.ofFloat y) :
    floatKey x = floatKey y := by
  simp only [floatKey, Style.write, h]

theorem floatKey_zero {x : Float} {s : Bool} (hx : Parts.ofFloat x = .finite s 0 (-1074)) :
    floatKey x = Json.intText 0 := by
  have hint : (Parts.finite s 0 (-1074)).isInteger = true := by simp [Parts.isInteger]
  have hzero : (Parts.finite s 0 (-1074)).truncate = 0 := by simp [Parts.truncate]
  simp only [floatKey, hx, hint, hzero, Int.natAbs_zero]
  rfl

theorem floatKey_of_beq {x y : Float} (hxy : (x == y) = true) : floatKey x = floatKey y := by
  rcases ofFloat_of_beq hxy with heq | ⟨s, t, hx, hy⟩
  · exact floatKey_congr heq
  · rw [floatKey_zero hx, floatKey_zero hy]

/-- Where the keys of an integer and an equal double agree. -/
def NumbersAlike (n : Int) (x : Float) : Prop :=
  n.natAbs < 9 * pow10 15 ∨ Json.ShortestIs displayStyle.tie x n

theorem le_natAbs_truncate_ofInt {n : Int} (hlow : 9 * pow10 15 ≤ n.natAbs)
    (hn : n.natAbs < pow2 64) :
    9 * pow10 15 ≤ (Parts.ofFloat (Number.ofInt n)).truncate.natAbs := by
  rcases Nat.lt_or_ge n.natAbs (pow2 53) with hlt | hge
  · rwa [(truncate_ofInt hlt).2]
  · exact le_trans (by decide) (le_truncate_ofInt hge hn)

theorem floatKey_ofInt {n : Int} (hn : n.natAbs < 9 * pow10 15) :
    floatKey (Number.ofInt n) = Json.intText n := by
  obtain ⟨hint, htrunc⟩ := truncate_ofInt (hn.trans (by decide))
  simp only [floatKey, hint, htrunc, hn, decide_true, Bool.and_true, if_true]

theorem intText_eq_floatKey {n : Int} (hn : n.natAbs < pow2 64) {x : Float}
    (hx : (Number.ofInt n == x) = true) : Json.intText n = floatKey x ↔ NumbersAlike n x := by
  rcases Nat.lt_or_ge n.natAbs (9 * pow10 15) with hlt | hge
  · simp [← floatKey_of_beq hx, floatKey_ofInt hlt, NumbersAlike, hlt]
  · have htrunc := le_natAbs_truncate_ofInt hge hn
    have hparts : Parts.ofFloat x = Parts.ofFloat (Number.ofInt n) := by
      rcases ofFloat_of_beq hx with heq | ⟨s, t, hzero, -⟩
      · exact heq.symm
      · rw [hzero] at htrunc
        simp [Parts.truncate, pow10] at htrunc
    have hkey : floatKey x = displayStyle.write x := by
      rw [floatKey, hparts, if_neg]
      simp only [Bool.and_eq_true, decide_eq_true_eq, not_and, not_lt]
      exact fun _ => htrunc
    have hne : n ≠ 0 := by
      rintro rfl
      simp [pow10] at hge
    rw [hkey, eq_comm, Json.write_eq_intText (fun _ => rfl) rfl hne]
    simp [NumbersAlike, not_lt.2 hge]

/-! ## Texts of containers -/

/-- Of two equal scalars: they are written alike inside of containers. -/
def SpelledAlike : Value → Value → Prop
  | .list _, _ | .map _, _ | _, .list _ | _, .map _ => False
  | .int _, .float _ | .float _, .int _ => False
  | .float x, .float y => Parts.ofFloat x = Parts.ofFloat y
  | _, _ => True

/-- Of two equal values, met below the containers in two paths: they have one text. Cycles close at
the same places, and the fields of maps stand in the same order. -/
inductive Alike (h : Heap) : List Container → List Container → Value → Value → Prop where
  | scalar {p q : List Container} {x y : Value} : SpelledAlike x y → Alike h p q x y
  | listCycle {p q : List Container} {a b : ListRef} : .list a ∈ p → .list b ∈ q →
      Alike h p q (.list a) (.list b)
  | mapCycle {p q : List Container} {a b : MapRef} : .map a ∈ p → .map b ∈ q →
      Alike h p q (.map a) (.map b)
  | list {p q : List Container} {a b : ListRef} : .list a ∉ p → .list b ∉ q →
      (h.list a).length = (h.list b).length →
      (∀ e ∈ (h.list a).zip (h.list b), Alike h (.list a :: p) (.list b :: q) e.1 e.2) →
      Alike h p q (.list a) (.list b)
  | map {p q : List Container} {a b : MapRef} : .map a ∉ p → .map b ∉ q →
      (h.map a).keys = (h.map b).keys →
      (∀ k x y, (h.map a).get? k = some x → (h.map b).get? k = some y →
        Alike h (.map a :: p) (.map b :: q) x y) →
      Alike h p q (.map a) (.map b)

variable {h : Heap}

/-- What is inside of bisimilar containers: one value, or two bisimilar ones. A double that differs
from itself is not bisimilar to itself, but one container holds it twice. -/
def Related (h : Heap) (x y : Value) : Prop := x = y ∨ Bisimilar h x y

theorem related_of_bisimulation {R : Value → Value → Prop} (hR : IsBisimulation h R) {x y : Value}
    (hxy : R x y) : Related h x y :=
  .inr ⟨R, hR, hxy⟩

theorem Related.of_list {a : ListRef} {y : Value} (hr : Related h (.list a) y) :
    ∃ b, y = .list b ∧ List.Forall₂ (Related h) (h.list a) (h.list b) := by
  have hrefl : List.Forall₂ (Related h) (h.list a) (h.list a) :=
    List.forall₂_same.2 fun _ _ => .inl rfl
  rcases hr with rfl | ⟨R, hR, hay⟩
  · exact ⟨a, rfl, hrefl⟩
  · cases hR _ _ hay with
    | sameList => exact ⟨a, rfl, hrefl⟩
    | scalar hs => cases hs
    | list hl => exact ⟨_, rfl, hl.imp fun _ _ => related_of_bisimulation hR⟩

theorem Related.of_map {a : MapRef} {y : Value} (hr : Related h (.map a) y) :
    ∃ b, y = .map b ∧ ∀ k x y, (h.map a).get? k = some x → (h.map b).get? k = some y →
      Related h x y := by
  have hrefl (k : String) (x y : Value) (hx : (h.map a).get? k = some x)
      (hy : (h.map a).get? k = some y) : Related h x y :=
    .inl (Option.some.inj (hx.symm.trans hy))
  rcases hr with rfl | ⟨R, hR, hay⟩
  · exact ⟨a, rfl, hrefl⟩
  · cases hR _ _ hay with
    | sameMap => exact ⟨a, rfl, hrefl⟩
    | scalar hs => cases hs
    | map _ hv =>
      exact ⟨_, rfl, fun k x y hx hy => related_of_bisimulation hR (hv k x y hx hy)⟩

/-- A value other than a container is related to itself and to the scalars that it equals. -/
def IsScalar : Value → Prop
  | .list _ | .map _ => False
  | _ => True

theorem Related.of_scalar {x y : Value} (hx : IsScalar x) (hr : Related h x y) :
    x = y ∨ scalarEqual x y = true := by
  rcases hr with rfl | ⟨R, hR, hxy⟩
  · exact .inl rfl
  · cases hR _ _ hxy with
    | scalar hs => exact .inr hs
    | _ => exact hx.elim

theorem spelledAlike_self {x : Value} (hx : IsScalar x) : SpelledAlike x x := by
  cases x with
  | list | map => exact hx.elim
  | float => rfl
  | _ => trivial

theorem chars_unfold_int (p : List Container) (n : Int64) :
    Json.chars (unfold h p (.int n)) = Json.intText n.toInt := by
  rw [unfold, Json.chars]

theorem chars_unfold_float (p : List Container) (x : Float) :
    Json.chars (unfold h p (.float x)) = Json.floatText x := by
  rw [unfold, Json.floatText]
  split
  · rw [Json.chars, Json.floatText, if_pos ‹_›]
  · rw [Json.chars]

/-- The text of a scalar does not depend on the containers around it. -/
theorem unfold_scalar {x : Value} (hx : IsScalar x) (p q : List Container) :
    unfold h p x = unfold h q x := by
  cases x with
  | list | map => exact hx.elim
  | _ => simp only [unfold]

/-- Equal scalars are one value, two numbers, or two patterns of one source. -/
theorem scalarEqual_cases {x y : Value} (hxy : scalarEqual x y = true) :
    (IsScalar x ∧ x = y) ∨
      (∃ a b, x = .float a ∧ y = .float b ∧ (a == b) = true) ∨
      (∃ n b, x = .int n ∧ y = .float b ∧ (Number.ofInt n.toInt == b) = true) ∨
      (∃ a n, x = .float a ∧ y = .int n ∧ (Number.ofInt n.toInt == a) = true) ∨
      ∃ a b, x = .pattern a ∧ y = .pattern b ∧ a.source = b.source := by
  unfold scalarEqual at hxy
  split at hxy <;> simp_all [IsScalar]

theorem chars_unfold_of_scalarEqual {x y : Value} (hxy : scalarEqual x y = true)
    (p q : List Container) :
    Json.chars (unfold h p x) = Json.chars (unfold h q y) ↔ SpelledAlike x y := by
  rcases scalarEqual_cases hxy with ⟨hx, rfl⟩ | ⟨a, b, rfl, rfl, hab⟩ | ⟨n, b, rfl, rfl, -⟩ |
    ⟨a, n, rfl, rfl, -⟩ | ⟨a, b, rfl, rfl, hab⟩
  · simp only [unfold_scalar hx p q, spelledAlike_self hx]
  · simp only [chars_unfold_float, SpelledAlike]
    exact Json.floatText_inj_of_beq hab
  · simp only [chars_unfold_int, chars_unfold_float, SpelledAlike, iff_false]
    exact Json.intText_ne_floatText _ _
  · simp only [chars_unfold_int, chars_unfold_float, SpelledAlike, iff_false]
    exact (Json.intText_ne_floatText _ _).symm
  · simp only [unfold, hab, SpelledAlike]

/-- Induction on the way down from a value: inside of a container, that container is on the path. -/
theorem unfold_induction {motive : List Container → Value → Prop}
    (scalar : ∀ p x, IsScalar x → motive p x)
    (list : ∀ p r, (.list r ∉ p → ∀ x ∈ h.list r, motive (.list r :: p) x) → motive p (.list r))
    (map : ∀ p r, (.map r ∉ p → ∀ e ∈ (h.map r).entries, motive (.map r :: p) e.2) →
      motive p (.map r)) (p : List Container) (x : Value) : motive p x := by
  induction p, x using unfold.induct h with
  | case7 p r hr => exact list p r fun hn => absurd hr hn
  | case8 p r _ ih => exact list p r fun _ => ih
  | case9 p r hr => exact map p r fun hn => absurd hr hn
  | case10 p r _ ih => exact map p r fun _ => ih
  | _ => exact scalar _ _ trivial

/-- A list's text on its own path is a cycle mark or the texts of its elements. -/
theorem chars_unfold_list {p q : List Container} {a b : ListRef} :
    Json.chars (unfold h p (.list a)) = Json.chars (unfold h q (.list b)) ↔
      (.list a ∈ p ∧ .list b ∈ q) ∨ (.list a ∉ p ∧ .list b ∉ q ∧
        List.Forall₂ (fun x y => Json.chars (unfold h (.list a :: p) x) =
          Json.chars (unfold h (.list b :: q) y)) (h.list a) (h.list b)) := by
  rw [unfold_list, unfold_list]
  by_cases ha : .list a ∈ p <;> by_cases hb : .list b ∈ q
  · simp [ha, hb]
  · simp [ha, hb, Json.chars_string_ne_array]
  · simp [ha, hb, (Json.chars_string_ne_array _ _).symm]
  · simp [ha, hb, Json.chars_array_inj, List.forall₂_map_left_iff, List.forall₂_map_right_iff]

theorem chars_unfold_map {p q : List Container} {a b : MapRef} :
    Json.chars (unfold h p (.map a)) = Json.chars (unfold h q (.map b)) ↔
      (.map a ∈ p ∧ .map b ∈ q) ∨ (.map a ∉ p ∧ .map b ∉ q ∧
        (h.map a).keys = (h.map b).keys ∧
        ∀ k x y, (h.map a).get? k = some x → (h.map b).get? k = some y →
          Json.chars (unfold h (.map a :: p) x) = Json.chars (unfold h (.map b :: q) y)) := by
  rw [unfold_map, unfold_map, ← Fields.forall₂_entries]
  by_cases ha : .map a ∈ p <;> by_cases hb : .map b ∈ q
  · simp [ha, hb]
  · simp [ha, hb, Json.chars_string_ne_object]
  · simp [ha, hb, (Json.chars_string_ne_object _ _).symm]
  · simp [ha, hb, Json.chars_object_inj, List.forall₂_map_left_iff, List.forall₂_map_right_iff]

theorem alike_scalar {p q : List Container} {x y : Value} (hx : IsScalar x) :
    Alike h p q x y ↔ SpelledAlike x y := by
  constructor
  · intro ha
    cases ha with
    | scalar hs => exact hs
    | _ => exact hx.elim
  · exact .scalar

theorem alike_list {p q : List Container} {a b : ListRef} :
    Alike h p q (.list a) (.list b) ↔
      (.list a ∈ p ∧ .list b ∈ q) ∨ (.list a ∉ p ∧ .list b ∉ q ∧
        List.Forall₂ (Alike h (.list a :: p) (.list b :: q)) (h.list a) (h.list b)) := by
  constructor
  · intro hab
    cases hab with
    | scalar hs => exact hs.elim
    | listCycle ha hb => exact .inl ⟨ha, hb⟩
    | list ha hb hlen hall =>
      exact .inr ⟨ha, hb, List.forall₂_iff_zip.2 ⟨hlen, fun he => hall _ he⟩⟩
  · rintro (⟨ha, hb⟩ | ⟨ha, hb, hall⟩)
    · exact .listCycle ha hb
    · exact .list ha hb hall.length_eq fun e he => List.forall₂_zip hall he

theorem alike_map {p q : List Container} {a b : MapRef} :
    Alike h p q (.map a) (.map b) ↔
      (.map a ∈ p ∧ .map b ∈ q) ∨ (.map a ∉ p ∧ .map b ∉ q ∧
        (h.map a).keys = (h.map b).keys ∧
        ∀ k x y, (h.map a).get? k = some x → (h.map b).get? k = some y →
          Alike h (.map a :: p) (.map b :: q) x y) := by
  constructor
  · intro hab
    cases hab with
    | scalar hs => exact hs.elim
    | mapCycle ha hb => exact .inl ⟨ha, hb⟩
    | map ha hb hkeys hall => exact .inr ⟨ha, hb, hkeys, hall⟩
  · rintro (⟨ha, hb⟩ | ⟨ha, hb, hkeys, hall⟩)
    · exact .mapCycle ha hb
    · exact .map ha hb hkeys hall

/-- Equal values have one text exactly if they are alike. Induction on the way down from the first
value. -/
theorem chars_unfold_eq_iff_alike {p q : List Container} {x y : Value} (hr : Related h x y) :
    Json.chars (unfold h p x) = Json.chars (unfold h q y) ↔ Alike h p q x y := by
  induction p, x using unfold_induction (h := h) generalizing q y with
  | scalar p x hx =>
    rw [alike_scalar hx]
    rcases hr.of_scalar hx with rfl | hs
    · simp only [unfold_scalar hx p q, spelledAlike_self hx]
    · exact chars_unfold_of_scalarEqual hs p q
  | list p a ih =>
    obtain ⟨b, rfl, hall⟩ := hr.of_list
    rw [chars_unfold_list, alike_list]
    refine or_congr_right (and_congr_right fun ha => and_congr_right fun _ => ?_)
    rw [List.forall₂_iff_zip, List.forall₂_iff_zip]
    refine and_congr_right fun _ => forall_congr' fun x => forall_congr' fun y => ?_
    refine forall_congr' fun hmem => ih ha x (List.of_mem_zip hmem).1 (List.forall₂_zip hall hmem)
  | map p a ih =>
    obtain ⟨b, rfl, hall⟩ := hr.of_map
    rw [chars_unfold_map, alike_map]
    refine or_congr_right (and_congr_right fun ha => and_congr_right fun _ =>
      and_congr_right fun _ => ?_)
    refine forall_congr' fun k => forall_congr' fun x => forall_congr' fun y => ?_
    refine forall_congr' fun hx => forall_congr' fun hy => ?_
    exact ih ha (k, x) (Fields.mem_entries.2 hx) (hall k x y hx hy)

/-! ## Keys -/

/-- Of two structurally equal values: they have one key. -/
def KeyedAlike (h : Heap) : Value → Value → Prop
  | .int n, .float x | .float x, .int n => NumbersAlike n.toInt x
  | .list a, .list b => Alike h [] [] (.list a) (.list b)
  | .map a, .map b => Alike h [] [] (.map a) (.map b)
  | _, _ => True

theorem natAbs_toInt_lt (n : Int64) : n.toInt.natAbs < pow2 64 := by
  have hlow := Int64.le_toInt n
  have hhigh := Int64.toInt_lt n
  simp only [pow2, Nat.pow_eq]
  omega

theorem identityKey_of_scalarEqual {a b : Value} (hab : scalarEqual a b = true) :
    identityKey h a = identityKey h b ↔ KeyedAlike h a b := by
  rcases scalarEqual_cases hab with ⟨ha, rfl⟩ | ⟨x, y, rfl, rfl, hxy⟩ | ⟨n, x, rfl, rfl, hx⟩ |
    ⟨x, n, rfl, rfl, hx⟩ | ⟨x, y, rfl, rfl, hxy⟩
  · cases a with
    | list | map => exact ha.elim
    | _ => simp [KeyedAlike]
  · simp [identityKey, floatKey_of_beq hxy, KeyedAlike]
  · simp [identityKey, KeyedAlike, ← intText_eq_floatKey (natAbs_toInt_lt n) hx, String.ofList_inj]
  · simp [identityKey, KeyedAlike, ← intText_eq_floatKey (natAbs_toInt_lt n) hx, eq_comm,
      String.ofList_inj]
  · simp [identityKey, hxy, KeyedAlike]

theorem identityKey_list {a b : ListRef} (hr : Related h (.list a) (.list b)) :
    identityKey h (.list a) = identityKey h (.list b) ↔ KeyedAlike h (.list a) (.list b) := by
  simp [identityKey, Json.render, toJson, KeyedAlike, ← chars_unfold_eq_iff_alike hr,
    String.ofList_inj]

theorem identityKey_map {a b : MapRef} (hr : Related h (.map a) (.map b)) :
    identityKey h (.map a) = identityKey h (.map b) ↔ KeyedAlike h (.map a) (.map b) := by
  simp [identityKey, Json.render, toJson, KeyedAlike, ← chars_unfold_eq_iff_alike hr,
    String.ofList_inj]

theorem identityKey_of_structEq {a b : Value} (hab : structEq h a b = true) :
    identityKey h a = identityKey h b ↔ KeyedAlike h a b := by
  obtain ⟨R, hR, hRab⟩ := (bisimilarBelow_of_equalBelow hab).bisimilar
  cases hR _ _ hRab with
  | sameList r => exact identityKey_list (.inl rfl)
  | sameMap r => exact identityKey_map (.inl rfl)
  | scalar hs => exact identityKey_of_scalarEqual hs
  | list => exact identityKey_list (related_of_bisimulation hR hRab)
  | map => exact identityKey_map (related_of_bisimulation hR hRab)

/-- Structurally equal values have one key exactly if they are alike. So a window that remembers the
key of one refuses the other if they are alike, and a window that knows nothing else admits it if
they are not. -/
theorem identityKey_eq_iff_keyedAlike (h : Heap) (a b : Value) (hab : structEq h a b = true) :
    (identityKey h a = identityKey h b ↔ KeyedAlike h a b) ∧
      (KeyedAlike h a b → ∀ (ws : Windows) (kind : String) (capacity : Nat),
        (ws.get kind capacity).contains (identityKey h a) = true →
          (ws.accept kind capacity (identityKey h b)).1 = false) ∧
      ∀ (ws : Windows) (kind : String) (capacity : Nat), ws.get? kind = none →
        (((ws.accept kind capacity (identityKey h a)).2.accept kind capacity
          (identityKey h b)).1 = true ↔ ¬KeyedAlike h a b) := by
  have hkey := identityKey_of_structEq hab
  refine ⟨hkey, fun halike ws kind capacity hmem => ?_, fun ws kind capacity hnone => ?_⟩
  · rw [← hkey.2 halike]
    rw [Windows.accept_fst, hmem]
    rfl
  · rw [← hkey, Windows.accept_fst, Windows.contains_accept_new hnone]
    simp

/-- The lists `[1]` and `[1.0]`. -/
def oneLists : Heap := { lists := #[[.int 1], [.float (Number.ofInt 1)]] }

theorem structEq_oneLists : structEq oneLists (.list ⟨0⟩) (.list ⟨1⟩) = true := by
  refine equalBelow_list.2 (.inr ⟨rfl, fun e he => ?_⟩)
  obtain rfl : e = (.int 1, .float (Number.ofInt 1)) := by simpa [oneLists, Heap.list] using he
  exact equalBelow_of_scalarEqual (by decide)

theorem not_keyedAlike_oneLists : ¬KeyedAlike oneLists (.list ⟨0⟩) (.list ⟨1⟩) := by
  intro hk
  have hk' := (alike_list.1 hk).resolve_left fun hmem => nomatch hmem.1
  have h11 := List.forall₂_zip hk'.2.2 (a := .int 1) (b := .float (Number.ofInt 1))
    (by simp [oneLists, Heap.list])
  exact (alike_scalar (x := .int 1) trivial).1 h11

/-- Structural equality alone does not give one key. -/
theorem not_forall_identityKey_eq :
    ¬∀ (h : Heap) (a b : Value), structEq h a b = true → identityKey h a = identityKey h b :=
  fun hall => not_keyedAlike_oneLists
    ((identityKey_of_structEq structEq_oneLists).1 (hall _ _ _ structEq_oneLists))

/-- The lists `[1]` and `[1.0]` are equal, their keys differ, and a window admits both. -/
theorem identityKey_one_ne :
    structEq oneLists (.list ⟨0⟩) (.list ⟨1⟩) = true ∧
      identityKey oneLists (.list ⟨0⟩) ≠ identityKey oneLists (.list ⟨1⟩) ∧
      ((Windows.accept .empty "seen" 8 (identityKey oneLists (.list ⟨0⟩))).2.accept "seen" 8
        (identityKey oneLists (.list ⟨1⟩))).1 = true := by
  obtain ⟨hkey, -, hwindow⟩ :=
    identityKey_eq_iff_keyedAlike oneLists (.list ⟨0⟩) (.list ⟨1⟩) structEq_oneLists
  refine ⟨structEq_oneLists, fun he => not_keyedAlike_oneLists (hkey.1 he), ?_⟩
  exact (hwindow .empty "seen" 8 rfl).2 not_keyedAlike_oneLists

end Value

end Sigil
