import Mathlib.Data.List.Forall2
import Sigil.Proofs.Frame
import Sigil.Proofs.ReadOnly

/-!
# Copies of documents

A document becomes a value by building a list or map for each array or object in it. Such a copy has
copies of the members of the document for its members (`Value.IsCopy.member`), so two copies of a
document have the same members, up to copying (`Value.IsCopy.member_both`).
-/

namespace Sigil

/-- The member of a document that a name selects. -/
def Json.member? : Json → String → Option Json
  | .array items, name => (Number.readWord? name.toList).bind (items[·]?)
  | .object fields, name => (Fields.ofList fields).get? name
  | _, _ => none

/-- The part of a document to which the names lead. -/
def Json.at? (j : Json) : List String → Option Json
  | [] => some j
  | name :: names => (j.member? name).bind (·.at? names)

theorem Json.ne_null_of_at? {j i : Json} {names : List String} (hat : j.at? names = some i)
    (hi : i ≠ .null) : j ≠ .null := by
  rintro rfl
  cases names with
  | nil => exact hi (Option.some.inj hat).symm
  | cons name names => cases hat

/-- The value was built from the document after the first heap, and is in the second as it was
built. -/
def Value.IsCopy (old h : Heap) (j : Json) (v : Value) : Prop :=
  ∃ h₀, old.Extends h₀ ∧ (ofJson j h₀).1 = v ∧ (ofJson j h₀).2.Extends h

theorem Value.ofJson_array (items : List Json) (h : Heap) :
    ofJson (.array items) h =
      (.list ((ofItems items h).2.newList (ofItems items h).1).1,
        ((ofItems items h).2.newList (ofItems items h).1).2) := rfl

theorem Value.ofJson_object (fields : List (String × Json)) (h : Heap) :
    ofJson (.object fields) h =
      (.map ((ofFields fields h).2.newMap (.ofList (ofFields fields h).1)).1,
        ((ofFields fields h).2.newMap (.ofList (ofFields fields h).1)).2) := rfl

theorem extends_ofJson (j : Json) (h : Heap) : h.Extends (Value.ofJson j h).2 :=
  ((readable_untouched { heap := h }).ofJson j (.refl _)).1.heap

theorem extends_ofItems (items : List Json) (h : Heap) : h.Extends (Value.ofItems items h).2 :=
  ((readable_untouched { heap := h }).ofItems items (.refl _)).1.heap

theorem extends_ofFields (fields : List (String × Json)) (h : Heap) :
    h.Extends (Value.ofFields fields h).2 :=
  ((readable_untouched { heap := h }).ofFields fields (.refl _)).1.heap

theorem isCopy_ofItems (items : List Json) {old h₀ h : Heap} (hold : old.Extends h₀)
    (he : (Value.ofItems items h₀).2.Extends h) :
    List.Forall₂ (Value.IsCopy old h) items (Value.ofItems items h₀).1 := by
  induction items generalizing h₀ with
  | nil => exact .nil
  | cons j rest ih =>
    have hrest := ih (hold.trans (extends_ofJson j h₀)) he
    exact .cons ⟨h₀, hold, rfl, (extends_ofItems rest _).trans he⟩ hrest

theorem isCopy_ofFields (fields : List (String × Json)) {old h₀ h : Heap} (hold : old.Extends h₀)
    (he : (Value.ofFields fields h₀).2.Extends h) :
    List.Forall₂ (fun e f => e.1 = f.1 ∧ Value.IsCopy old h e.2 f.2) fields
      (Value.ofFields fields h₀).1 := by
  induction fields generalizing h₀ with
  | nil => exact .nil
  | cons e rest ih =>
    have hrest := ih (hold.trans (extends_ofJson e.2 h₀)) he
    exact .cons ⟨rfl, h₀, hold, rfl, (extends_ofFields rest _).trans he⟩ hrest

theorem rel_getElem? {α β : Type} {r : α → β → Prop} {xs : List α} {ys : List β}
    (h : List.Forall₂ r xs ys) (i : Nat) : Option.Rel r xs[i]? ys[i]? := by
  induction h generalizing i with
  | nil => exact .none
  | cons hr _ ih =>
    cases i with
    | zero => exact .some hr
    | succ i => simpa using ih i

theorem Fields.rel_get?_ofList {α β : Type} {r : α → β → Prop} {xs : List (String × α)}
    {ys : List (String × β)} (h : List.Forall₂ (fun e f => e.1 = f.1 ∧ r e.2 f.2) xs ys)
    (name : String) : Option.Rel r ((ofList xs).get? name) ((ofList ys).get? name) := by
  suffices hfold : ∀ (f : Fields α) (g : Fields β), Option.Rel r (f.get? name) (g.get? name) →
      Option.Rel r ((xs.foldl (fun f e => f.set e.1 e.2) f).get? name)
        ((ys.foldl (fun f e => f.set e.1 e.2) g).get? name) from
    hfold .empty .empty .none
  induction h with
  | nil => exact fun _ _ hrel => hrel
  | cons hr _ ih =>
    intro f g hrel
    refine ih _ _ ?_
    rw [get?_set, get?_set, ← hr.1]
    split
    · exact .some hr.2
    · exact hrel

theorem Value.isCopy_of_ofJson {j : Json} {h k : Heap} {v : Value} (hj : ofJson j h = (v, k)) :
    IsCopy h k j v := by
  refine ⟨h, .refl h, congrArg Prod.fst hj, ?_⟩
  rw [hj]
  exact .refl k

namespace Value.IsCopy

variable {old h : Heap} {j : Json} {v : Value}

/-- A copy of an array is a list of copies. -/
theorem of_array {items : List Json} (hc : IsCopy old h (.array items) v) :
    ∃ r, v = .list r ∧ List.Forall₂ (IsCopy old h) items (h.list r) := by
  obtain ⟨h₀, hold, rfl, he⟩ := hc
  rw [ofJson_array] at he ⊢
  refine ⟨_, rfl, ?_⟩
  rw [he.list (by simp [Heap.newList]), Heap.list_newList]
  exact isCopy_ofItems items hold ((Heap.extends_newList _ _).trans he)

/-- A copy of an object is a map of copies. -/
theorem of_object {fields : List (String × Json)} (hc : IsCopy old h (.object fields) v) :
    ∃ r, v = .map r ∧ ∀ name, Option.Rel (IsCopy old h) ((Fields.ofList fields).get? name)
      ((h.map r).get? name) := by
  obtain ⟨h₀, hold, rfl, he⟩ := hc
  rw [ofJson_object] at he ⊢
  refine ⟨_, rfl, fun name => ?_⟩
  rw [he.map (by simp [Heap.newMap]), Heap.map_newMap]
  exact Fields.rel_get?_ofList
    (isCopy_ofFields fields hold ((Heap.extends_newMap _ _).trans he)) name

/-- A copy of a document has copies of its members. -/
theorem member (hc : IsCopy old h j v) (name : String) :
    ∃ x?, v.member h (.string name) = x?.map (·, h) ∧
      Option.Rel (IsCopy old h) (j.member? name) x? := by
  cases j with
  | array items =>
    obtain ⟨r, rfl, hitems⟩ := hc.of_array
    refine ⟨_, rfl, ?_⟩
    simp only [Json.member?, index?]
    cases Number.readWord? name.toList with
    | none => exact .none
    | some i => exact rel_getElem? hitems i
  | object fields =>
    obtain ⟨r, rfl, hfields⟩ := hc.of_object
    exact ⟨_, rfl, hfields name⟩
  | int n =>
    obtain ⟨h₀, -, rfl, -⟩ := hc
    refine ⟨none, ?_, .none⟩
    simp only [ofJson, ofInt]
    split <;> rfl
  | _ =>
    obtain ⟨h₀, -, rfl, -⟩ := hc
    exact ⟨none, rfl, .none⟩

theorem member_of_some (hc : IsCopy old h j v) {name : String} {i : Json}
    (hi : j.member? name = some i) :
    ∃ x, v.member h (.string name) = some (x, h) ∧ IsCopy old h i x := by
  obtain ⟨x?, hm, hrel⟩ := hc.member name
  rw [hi] at hrel
  cases hrel with
  | some hx => exact ⟨_, hm, hx⟩

theorem member_of_none (hc : IsCopy old h j v) {name : String} (hi : j.member? name = none) :
    v.member h (.string name) = none := by
  obtain ⟨x?, hm, hrel⟩ := hc.member name
  rw [hi] at hrel
  cases hrel
  exact hm

theorem not_isNew (hc : IsCopy old h j v) : ¬ v.IsNew h := by
  obtain ⟨h₀, -, rfl, he⟩ := hc
  intro hnew
  cases j with
  | array items =>
    rw [ofJson_array] at hnew he
    have hle := Nat.le_trans he.lists.length_le hnew
    simp only [Heap.newList, Array.length_toList, Array.size_push] at hle
    omega
  | object fields =>
    rw [ofJson_object] at hnew he
    have hle := Nat.le_trans he.maps.length_le hnew
    simp only [Heap.newMap, Array.length_toList, Array.size_push] at hle
    omega
  | int n =>
    simp only [ofJson, ofInt] at hnew
    split at hnew <;> exact hnew
  | _ => exact hnew

theorem extend {h' : Heap} (hc : IsCopy old h j v) (he : h.Extends h') : IsCopy old h' j v := by
  obtain ⟨h₀, hold, hv, hh⟩ := hc
  exact ⟨h₀, hold, hv, hh.trans he⟩

theorem extends_old (hc : IsCopy old h j v) : old.Extends h := by
  obtain ⟨h₀, hold, -, he⟩ := hc
  exact (hold.trans (extends_ofJson j h₀)).trans he

/-- The containers of a copy are not among those that were there before. -/
theorem isNew (hc : IsCopy old h j v) (hv : v.isContainer = true) : v.IsNew old := by
  obtain ⟨h₀, hold, rfl, -⟩ := hc
  cases j with
  | array items => exact (hold.trans (extends_ofItems items h₀)).lists.length_le
  | object fields => exact (hold.trans (extends_ofFields fields h₀)).maps.length_le
  | int n =>
    simp only [ofJson, ofInt] at hv
    split at hv <;> cases hv
  | _ => cases hv

theorem eq_null_iff (hc : IsCopy old h j v) : v = .null ↔ j = .null := by
  obtain ⟨h₀, -, rfl, -⟩ := hc
  cases j with
  | int n =>
    simp only [ofJson, ofInt]
    split <;> simp
  | _ => simp [ofJson]

theorem isNull_eq_false (hc : IsCopy old h j v) (hj : j ≠ .null) : v.isNull = false := by
  have hv : v ≠ .null := mt hc.eq_null_iff.1 hj
  cases v with
  | null => exact absurd rfl hv
  | _ => rfl

/-- What is read from a copy, with null for what is missing. -/
theorem member_getD (hc : IsCopy old h j v) (name : String) :
    ∃ x? : Option Value, v.member h (.string name) = x?.map (·, h) ∧
      IsCopy old h ((j.member? name).getD .null) (x?.getD .null) := by
  cases hj : j.member? name with
  | none => exact ⟨none, hc.member_of_none hj, h, hc.extends_old, rfl, .refl h⟩
  | some i =>
    obtain ⟨x, hm, hx⟩ := hc.member_of_some hj
    exact ⟨some x, hm, hx⟩

/-- Two copies of a document have the same members, up to copying. -/
theorem member_both {old' h' : Heap} {v' : Value} (hc : IsCopy old h j v)
    (hc' : IsCopy old' h' j v') (name : String) :
    (v.member h (.string name) = none ∧ v'.member h' (.string name) = none) ∨
      ∃ i x x', v.member h (.string name) = some (x, h) ∧
        v'.member h' (.string name) = some (x', h') ∧ IsCopy old h i x ∧ IsCopy old' h' i x' := by
  cases hj : j.member? name with
  | none => exact .inl ⟨hc.member_of_none hj, hc'.member_of_none hj⟩
  | some i =>
    obtain ⟨x, hm, hx⟩ := hc.member_of_some hj
    obtain ⟨x', hm', hx'⟩ := hc'.member_of_some hj
    exact .inr ⟨i, x, x', hm, hm', hx, hx'⟩

end Value.IsCopy

end Sigil
