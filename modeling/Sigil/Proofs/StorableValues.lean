import Sigil.Proofs.CycleMarks
import Sigil.Proofs.DocumentKeys
import Sigil.Proofs.DocumentRoundTrip

/-!
# Values that documents hold in full

An acyclic value made of plain data loses nothing when it becomes a document: the document has the
documents of its elements and fields (`Acyclic.toJson_list`, `Acyclic.toJson_map`). So what is built
from the document later is structurally equal to the value, however much of it is shared
(`Storable.structEq_copy`), also if a field of the document was set in between
(`Storable.structEq_copyWith`).
-/

namespace Sigil

/-- A new map with the fields of another one, but for the one that is set. -/
def Heap.copyWith (h : Heap) (r : MapRef) (name : String) (x : Value) : MapRef × Heap :=
  h.newMap ((h.map r).set name x)

namespace Value

/-- Null, truth values, integers, texts, and the lists and maps of the heap. -/
def IsDatum (h : Heap) : Value → Prop
  | .null | .bool _ | .int _ | .string _ => True
  | .list r => r.index < h.lists.size
  | .map r => r.index < h.maps.size
  | _ => False

/-- An acyclic value, with any sharing, in which nothing but data occurs. -/
structure Storable (h : Heap) (v : Value) : Prop where
  acyclic : Acyclic h v
  data : ∀ steps open_ x, Occurs h v steps open_ x → IsDatum h x

/-- The fields of a map, each with the document of its value. -/
def documentOf (h : Heap) (r : MapRef) : Document :=
  (h.map r).entries.map fun e => (e.1, toJson h e.2)

theorem nodup_keys_documentOf (h : Heap) (r : MapRef) :
    ((documentOf h r).map Prod.fst).Nodup := by
  rw [documentOf, List.map_map]
  exact (h.map r).nodup_keys

theorem lookup_documentOf (h : Heap) (r : MapRef) (name : String) :
    (documentOf h r).lookup name = ((h.map r).get? name).map (toJson h) :=
  lookup_map (toJson h) name (h.map r).entries

/-! ## Acyclic values -/

theorem Container.toValue_inj {c d : Container} (h : c.toValue = d.toValue) : c = d := by
  cases c <;> cases d <;> cases h <;> rfl

namespace Occurs

variable {h : Heap} {y : Value} {steps : List Descent} {open_ : List Container}

/-- What occurs in a container is the container itself or occurs in one of its children. -/
theorem of_container {c : Container} (hy : Occurs h c.toValue steps open_ y) :
    y = c.toValue ∧ open_ = [] ∨ ∃ step x steps' open',
      h.child? c step = some x ∧ Occurs h x steps' open' y ∧ open_ = open' ++ [c] := by
  generalize hroot : c.toValue = v at hy
  cases hy with
  | root => exact .inl ⟨rfl, rfl⟩
  | inside hchild hx =>
    obtain rfl := Container.toValue_inj hroot
    exact .inr ⟨_, _, _, _, hchild, hx, rfl⟩

/-- Nothing but itself occurs in a scalar. -/
theorem of_scalar {x : Value} (hx : IsScalar x) (hy : Occurs h x steps open_ y) :
    y = x ∧ open_ = [] := by
  cases hy with
  | root => exact ⟨rfl, rfl⟩
  | @inside c => cases c <;> exact hx.elim

end Occurs

namespace Acyclic

variable {h : Heap} {c : Container}

/-- A container is acyclic if its children are: if it occurred in one of them, that child would
contain itself. -/
theorem of_children (hc : ∀ step x, h.child? c step = some x → Acyclic h x) :
    Acyclic h c.toValue := by
  intro steps open_ d hd hmem
  rcases hd.of_container with ⟨-, rfl⟩ | ⟨step, x, steps', open', hx, hdown, rfl⟩
  · cases hmem
  · rcases List.mem_append.1 hmem with hmem | hmem
    · exact hc step x hx _ _ _ hdown hmem
    · obtain rfl := List.mem_singleton.1 hmem
      exact (hc step x hx).not_occurs (.inside hx (.root x)) List.mem_cons_self hdown

theorem child (hc : Acyclic h c.toValue) {step : Descent} {x : Value}
    (hx : h.child? c step = some x) : Acyclic h x :=
  hc.of_occurs (.inside hx (.root x))

/-- Inside of an acyclic container, its being open does not show. -/
theorem unfold_child (hc : Acyclic h c.toValue) (step : Descent) {x : Value}
    (hx : h.child? c step = some x) : unfold h [c] x = toJson h x := by
  refine unfold_eq_toJson (List.nodup_singleton c) fun d hd steps open_ => ?_
  have hroot : Occurs h c.toValue [step] [c] x := .inside hx (.root x)
  exact (hc.child hx).not_occurs hroot hd

theorem toJson_list {r : ListRef} (hr : Acyclic h (.list r)) :
    toJson h (.list r) = .array ((h.list r).map (toJson h)) := by
  rw [toJson, unfold_list, if_neg List.not_mem_nil]
  refine congrArg Json.array (List.map_congr_left fun x hx => ?_)
  obtain ⟨i, hi⟩ := List.getElem?_of_mem hx
  exact unfold_child (c := .list r) hr (.item i) hi

theorem toJson_map {r : MapRef} (hr : Acyclic h (.map r)) :
    toJson h (.map r) = .object (documentOf h r) := by
  rw [toJson, unfold_map, if_neg List.not_mem_nil]
  refine congrArg Json.object (List.map_congr_left fun e he => ?_)
  rw [unfold_child (c := .map r) hr (.field e.1) (Fields.mem_entries.1 he)]

end Acyclic

/-! ## Storable values -/

namespace Storable

variable {h : Heap} {v : Value} {c : Container}

theorem of_scalar (hv : IsScalar v) (hdatum : IsDatum h v) : Storable h v where
  acyclic steps open_ d hd := by
    obtain ⟨-, rfl⟩ := hd.of_scalar hv
    exact List.not_mem_nil
  data steps open_ x hx := by
    obtain ⟨rfl, -⟩ := hx.of_scalar hv
    exact hdatum

theorem of_children (hdatum : IsDatum h c.toValue)
    (hc : ∀ step x, h.child? c step = some x → Storable h x) : Storable h c.toValue where
  acyclic := .of_children fun step x hx => (hc step x hx).acyclic
  data steps open_ y hy := by
    rcases hy.of_container with ⟨rfl, -⟩ | ⟨step, x, steps', open', hx, hdown, -⟩
    · exact hdatum
    · exact (hc step x hx).data _ _ y hdown

theorem of_list {r : ListRef} (hr : r.index < h.lists.size)
    (hitems : ∀ x ∈ h.list r, Storable h x) : Storable h (.list r) := by
  refine of_children (c := .list r) hr fun step x hx => ?_
  cases step with
  | item i => exact hitems x (List.mem_of_getElem? hx)
  | field => cases hx

theorem of_map {r : MapRef} (hr : r.index < h.maps.size)
    (hfields : ∀ e ∈ (h.map r).entries, Storable h e.2) : Storable h (.map r) := by
  refine of_children (c := .map r) hr fun step x hx => ?_
  cases step with
  | item => cases hx
  | field name => exact hfields (name, x) (Fields.mem_entries.2 hx)

theorem datum (hv : Storable h v) : IsDatum h v := hv.data [] [] v (.root v)

theorem child (hc : Storable h c.toValue) (step : Descent) {x : Value}
    (hx : h.child? c step = some x) : Storable h x where
  acyclic := hc.acyclic.child hx
  data _ _ y hy := hc.data _ _ y (.inside hx hy)

theorem of_mem_list {r : ListRef} (hr : Storable h (.list r)) {x : Value} (hx : x ∈ h.list r) :
    Storable h x := by
  obtain ⟨i, hi⟩ := List.getElem?_of_mem hx
  exact child (c := .list r) hr (.item i) hi

theorem of_get? {r : MapRef} (hr : Storable h (.map r)) {name : String} {x : Value}
    (hx : (h.map r).get? name = some x) : Storable h x :=
  child (c := .map r) hr (.field name) hx

end Storable

/-! ## Copies -/

/-- A copy of the document of the other value, which could be stored. -/
def CopiesData (old h₀ h : Heap) (x y : Value) : Prop :=
  Storable h₀ y ∧ IsCopy old h (toJson h₀ y) x

section Copies

variable {old h₀ h : Heap}

/-- Maps look alike if one is a copy of the documents of the other's fields. -/
theorem matched_of_fields {fields : Document} {m q : MapRef}
    (hcopy : IsCopy old h (.object fields) (.map m)) (hnodup : (fields.map Prod.fst).Nodup)
    (hfields : ∀ name, fields.lookup name = ((h.map q).get? name).map (toJson h₀))
    (hstorable : ∀ name y, (h.map q).get? name = some y → Storable h₀ y) :
    Matched h (CopiesData old h₀ h) (.map m) (.map q) := by
  obtain ⟨r, hr, hcopies⟩ := hcopy.of_object
  obtain rfl := Value.map.inj hr
  refine .of_rel fun name => ?_
  have hname := hcopies name
  rw [Fields.get?, Fields.entries_ofList hnodup, hfields] at hname
  generalize (h.map m).get? name = x? at hname
  cases hy : (h.map q).get? name with
  | none =>
    rw [hy] at hname
    cases hname with
    | none => exact .none
  | some y =>
    rw [hy] at hname
    cases hname with
    | some hx => exact .some ⟨hstorable name y hy, hx⟩

/-- Copies look like what was stored, one level deep. -/
theorem isBisimulation_copiesData (he : h₀.Extends h) :
    IsBisimulation h (CopiesData old h₀ h) := by
  rintro x y ⟨hy, hx⟩
  cases y with
  | list r =>
    rw [hy.acyclic.toJson_list] at hx
    obtain ⟨a, rfl, ha⟩ := hx.of_array
    refine .list (List.Forall₂.flip ?_)
    rw [he.list hy.datum]
    exact (List.forall₂_and_left _ _).2
      ⟨fun x => hy.of_mem_list, List.forall₂_map_left_iff.1 ha⟩
  | map r =>
    rw [hy.acyclic.toJson_map] at hx
    obtain ⟨a, rfl, -⟩ := hx.of_object
    have hmap : h.map r = h₀.map r := he.map hy.datum
    refine matched_of_fields hx (nodup_keys_documentOf h₀ r) ?_ ?_
    · intro name
      rw [hmap, lookup_documentOf]
    · intro name y hname
      rw [hmap] at hname
      exact hy.of_get? hname
  | int n =>
    have hrange : Int64.minValue.toInt ≤ n.toInt ∧ n.toInt ≤ Int64.maxValue.toInt :=
      ⟨n.minValue_le_toInt, n.toInt_le⟩
    obtain ⟨k, -, rfl, -⟩ := hx
    simp only [toJson, unfold, ofJson, ofInt, if_pos hrange, Int64.ofInt_toInt]
    exact .scalar (by simp [scalarEqual])
  | null | bool | string =>
    obtain ⟨k, -, rfl, -⟩ := hx
    simp only [toJson, unfold, ofJson]
    exact .scalar (by simp [scalarEqual])
  | _ => exact hy.datum.elim

/-- A copy of some fields is structurally equal to the map of the values that were stored. -/
theorem structEq_of_fields (he : h₀.Extends h) {fields : Document} {m q : MapRef}
    (hcopy : IsCopy old h (.object fields) (.map m)) (hnodup : (fields.map Prod.fst).Nodup)
    (hfields : ∀ name, fields.lookup name = ((h.map q).get? name).map (toJson h₀))
    (hstorable : ∀ name y, (h.map q).get? name = some y → Storable h₀ y) :
    structEq h (.map m) (.map q) = true := by
  have hroot := matched_of_fields hcopy hnodup hfields hstorable
  -- The second map may be newer than what was stored, so the pair of maps is not one of copies.
  have hbisim : IsBisimulation h fun x y =>
      CopiesData old h₀ h x y ∨ x = .map m ∧ y = .map q := by
    rintro x y (hxy | ⟨rfl, rfl⟩)
    · exact (isBisimulation_copiesData he x y hxy).mono fun _ _ => .inl
    · exact hroot.mono fun _ _ => .inl
  exact hbisim.equalBelow (.inr ⟨rfl, rfl⟩)

/-- A copy of the document of a map is equal to the map. -/
theorem Storable.structEq_copy {v m : MapRef} (hv : Storable h₀ (.map v)) (he : h₀.Extends h)
    (hcopy : IsCopy old h (.object (documentOf h₀ v)) (.map m)) :
    structEq h (.map m) (.map v) = true := by
  have hmap : h.map v = h₀.map v := he.map hv.datum
  refine structEq_of_fields he hcopy (nodup_keys_documentOf h₀ v) (fun name => ?_) ?_
  · rw [hmap, lookup_documentOf]
  · intro name y hname
    rw [hmap] at hname
    exact hv.of_get? hname

/-- If a field of the document is set to a text, then its copies are equal to the map with that text
in the field. -/
theorem Storable.structEq_copyWith {v m : MapRef} (hv : Storable h₀ (.map v)) (he : h₀.Extends h)
    {field text : String}
    (hcopy : IsCopy old h (.object (overwrite field (.string text) (documentOf h₀ v))) (.map m)) :
    structEq (h.copyWith v field (.string text)).2 (.map m)
      (.map (h.copyWith v field (.string text)).1) = true := by
  have hlater : h.Extends (h.copyWith v field (.string text)).2 := Heap.extends_newMap h _
  have hmap : (h.copyWith v field (.string text)).2.map (h.copyWith v field (.string text)).1 =
      (h₀.map v).set field (.string text) := by
    rw [Heap.copyWith, Heap.map_newMap, he.map hv.datum]
  refine structEq_of_fields (he.trans hlater) (hcopy.extend hlater)
    (nodup_keys_overwrite (nodup_keys_documentOf h₀ v)) (fun name => ?_) fun name y hname => ?_
  · rw [hmap, lookup_overwrite, Fields.get?_set, lookup_documentOf]
    split
    · simp [toJson, unfold]
    · rfl
  · rw [hmap, Fields.get?_set] at hname
    split at hname
    · obtain rfl := Option.some.inj hname
      exact .of_scalar trivial trivial
    · exact hv.of_get? hname

end Copies

end Value

end Sigil
