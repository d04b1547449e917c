import Sigil.Proofs.DocumentCopies

/-!
# Documents that are read back

A document that becomes a value and is read back has lost nothing but what values cannot hold
(`Json.readBack`): integers beyond 64 bits come back as doubles, doubles that are no numbers as
null, and a field name that was repeated stands once. So the heap in which the value was built does
not show (`toJson_ofJson`).
-/

namespace Sigil

namespace Json

/-- Only numbers can be written. -/
def ofFloat (x : Float) : Json := if (Number.Parts.ofFloat x).isFinite then .float x else .null

mutual

/-- What is read from a value that was built from the document. -/
def readBack : Json → Json
  | .int n =>
    if Int64.minValue.toInt ≤ n ∧ n ≤ Int64.maxValue.toInt then .int n else ofFloat (Number.ofInt n)
  | .float x => ofFloat x
  | .array items => .array (readBackItems items)
  | .object fields => .object (Fields.ofList (readBackFields fields)).entries
  | j => j

def readBackItems : List Json → List Json
  | [] => []
  | j :: rest => readBack j :: readBackItems rest

def readBackFields : List (String × Json) → List (String × Json)
  | [] => []
  | (k, j) :: rest => (k, readBack j) :: readBackFields rest

end

end Json

/-! ## Fields -/

theorem map_overwrite {α β : Type} (f : α → β) (name : String) (value : α)
    (es : List (String × α)) :
    (overwrite name value es).map (fun e => (e.1, f e.2)) =
      overwrite name (f value) (es.map fun e => (e.1, f e.2)) := by
  induction es with
  | nil => rfl
  | cons e rest ih =>
    by_cases hname : e.1 = name
    · simp [overwrite, hname]
    · simp [overwrite, hname, ih]

theorem Fields.map_entries_ofList {α β : Type} (f : α → β) (es : List (String × α)) :
    (ofList es).entries.map (fun e => (e.1, f e.2)) =
      (ofList (es.map fun e => (e.1, f e.2))).entries := by
  suffices hfold : ∀ (F : Fields α) (G : Fields β),
      F.entries.map (fun e => (e.1, f e.2)) = G.entries →
      (es.foldl (fun F e => F.set e.1 e.2) F).entries.map (fun e => (e.1, f e.2)) =
        ((es.map fun e => (e.1, f e.2)).foldl (fun G e => G.set e.1 e.2) G).entries from
    hfold .empty .empty rfl
  induction es with
  | nil => exact fun _ _ hFG => hFG
  | cons e rest ih =>
    intro F G hFG
    refine ih _ _ ?_
    exact (map_overwrite f e.1 e.2 F.entries).trans (congrArg (overwrite e.1 (f e.2)) hFG)

/-! ## Values -/

/-- The container is not in the heap yet. -/
def Container.Later (h : Heap) : Container → Prop
  | .list r => h.lists.size ≤ r.index
  | .map r => h.maps.size ≤ r.index

theorem Container.Later.of_extends {h h' : Heap} (he : h.Extends h') {c : Container}
    (hc : c.Later h') : c.Later h := by
  cases c with
  | list r => exact Nat.le_trans he.lists.length_le hc
  | map r => exact Nat.le_trans he.maps.length_le hc

theorem Container.not_later_newList (h : Heap) (xs : List Value) :
    ¬ (Container.list (h.newList xs).1).Later (h.newList xs).2 := by
  simp only [Later, Heap.newList, Array.size_push]
  omega

theorem Container.not_later_newMap (h : Heap) (fields : Fields Value) :
    ¬ (Container.map (h.newMap fields).1).Later (h.newMap fields).2 := by
  simp only [Later, Heap.newMap, Array.size_push]
  omega

theorem Container.forall_later_cons {h h' : Heap} {c : Container} {path : List Container}
    (hc : c.Later h) (he : h.Extends h') (hpath : ∀ d ∈ path, d.Later h') :
    ∀ d ∈ c :: path, d.Later h :=
  List.forall_mem_cons.2 ⟨hc, fun d hd => (hpath d hd).of_extends he⟩

theorem Value.unfold_ofInt (h : Heap) (path : List Container) (n : Int) :
    unfold h path (ofInt n) = (Json.int n).readBack := by
  unfold ofInt Json.readBack
  split
  · rename_i hn
    rw [unfold, Int64.toInt_ofInt_of_le hn.1 (Int.lt_of_le_of_lt hn.2 (by decide))]
  · rw [unfold, Json.ofFloat]

mutual

/-- The containers of a document are built before those that they stand in, so none of them is met
again on the way down. -/
theorem Value.unfold_ofJson (j : Json) {h₀ h : Heap} (he : (ofJson j h₀).2.Extends h)
    {path : List Container} (hpath : ∀ c ∈ path, c.Later (ofJson j h₀).2) :
    unfold h path (ofJson j h₀).1 = j.readBack := by
  match j with
  | .null | .bool _ | .string _ => simp [ofJson, unfold, Json.readBack]
  | .float x => simp [ofJson, unfold, Json.readBack, Json.ofFloat]
  | .int n => exact unfold_ofInt h path n
  | .array items =>
    rw [ofJson_array] at he hpath ⊢
    -- The list comes after its items and before all containers that it stands in.
    have hnew := (ofItems items h₀).2.extends_newList (ofItems items h₀).1
    have hmem : .list ((ofItems items h₀).2.newList (ofItems items h₀).1).1 ∉ path := fun hmem =>
      Container.not_later_newList _ _ (hpath _ hmem)
    rw [unfold_list, if_neg hmem, he.list (by simp [Heap.newList]), Heap.list_newList,
      unfold_ofItems items (hnew.trans he)
        (Container.forall_later_cons (Nat.le_refl _) hnew hpath), Json.readBack]
  | .object fields =>
    rw [ofJson_object] at he hpath ⊢
    have hnew := (ofFields fields h₀).2.extends_newMap (.ofList (ofFields fields h₀).1)
    have hmem : .map ((ofFields fields h₀).2.newMap (.ofList (ofFields fields h₀).1)).1 ∉ path :=
      fun hmem => Container.not_later_newMap _ _ (hpath _ hmem)
    rw [unfold_map, if_neg hmem, he.map (by simp [Heap.newMap]), Heap.map_newMap,
      Fields.map_entries_ofList, unfold_ofFields fields (hnew.trans he)
        (Container.forall_later_cons (Nat.le_refl _) hnew hpath), Json.readBack]

theorem Value.unfold_ofItems (items : List Json) {h₀ h : Heap}
    (he : (ofItems items h₀).2.Extends h) {path : List Container}
    (hpath : ∀ c ∈ path, c.Later (ofItems items h₀).2) :
    (ofItems items h₀).1.map (unfold h path) = Json.readBackItems items := by
  match items with
  | [] => rfl
  | j :: rest =>
    have hrest := extends_ofItems rest (ofJson j h₀).2
    exact congrArg₂ List.cons
      (unfold_ofJson j (hrest.trans he) fun c hc => (hpath c hc).of_extends hrest)
      (unfold_ofItems rest he hpath)

theorem Value.unfold_ofFields (fields : List (String × Json)) {h₀ h : Heap}
    (he : (ofFields fields h₀).2.Extends h) {path : List Container}
    (hpath : ∀ c ∈ path, c.Later (ofFields fields h₀).2) :
    (ofFields fields h₀).1.map (fun e => (e.1, unfold h path e.2)) =
      Json.readBackFields fields := by
  match fields with
  | [] => rfl
  | (k, j) :: rest =>
    have hrest := extends_ofFields rest (ofJson j h₀).2
    exact congrArg₂ List.cons
      (congrArg (Prod.mk k)
        (unfold_ofJson j (hrest.trans he) fun c hc => (hpath c hc).of_extends hrest))
      (unfold_ofFields rest he hpath)

end

/-- A document is read back the same from every heap. -/
theorem Value.toJson_ofJson (j : Json) (h : Heap) :
    (ofJson j h).1.toJson (ofJson j h).2 = j.readBack :=
  unfold_ofJson j (.refl _) fun _ hc => nomatch hc

end Sigil
