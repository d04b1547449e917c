import Sigil.Proofs.ReadBack

/-!
# Documents that come back as they were

A document in which no name is repeated comes back from its value unchanged exactly if values hold
its numbers: its integers have 64 bits, and its doubles are numbers (`toJson_ofJson_eq_self_iff`).
The heap may hold anything before, and keeps it.
-/

namespace Sigil

/-! ## Fields without repeated names -/

theorem overwrite_of_notMem {α : Type} {name : String} {es : List (String × α)}
    (hname : name ∉ es.map Prod.fst) (value : α) :
    overwrite name value es = es ++ [(name, value)] := by
  induction es with
  | nil => rfl
  | cons e rest ih =>
    rw [List.map_cons, List.mem_cons, not_or] at hname
    rw [overwrite, if_neg (Ne.symm hname.1), ih hname.2, List.cons_append]

theorem Fields.entries_ofList {α : Type} {es : List (String × α)}
    (hes : (es.map Prod.fst).Nodup) : (ofList es).entries = es := by
  suffices hfold : ∀ F : Fields α, ((F.entries ++ es).map Prod.fst).Nodup →
      (es.foldl (fun F e => F.set e.1 e.2) F).entries = F.entries ++ es from hfold .empty hes
  clear hes
  induction es with
  | nil => exact fun F _ => (List.append_nil _).symm
  | cons e rest ih =>
    intro F hnodup
    -- The next name is not among those written so far, so its field goes last.
    have hentries : (F.set e.1 e.2).entries = F.entries ++ [e] := by
      refine overwrite_of_notMem (fun hmem => ?_) e.2
      rw [List.map_append, List.nodup_append] at hnodup
      exact hnodup.2.2 _ hmem _ List.mem_cons_self rfl
    rw [List.foldl_cons, ih, hentries, List.append_assoc, List.singleton_append]
    rwa [hentries, List.append_assoc]

namespace Json

/-! ## Numbers that values hold -/

mutual

/-- Every integer in the document has 64 bits, and every double is a number. -/
def NumbersFit : Json → Prop
  | .int n => Int64.minValue.toInt ≤ n ∧ n ≤ Int64.maxValue.toInt
  | .float x => (Number.Parts.ofFloat x).isFinite = true
  | .array items => NumbersFitItems items
  | .object fields => NumbersFitFields fields
  | _ => True

def NumbersFitItems : List Json → Prop
  | [] => True
  | j :: rest => NumbersFit j ∧ NumbersFitItems rest

def NumbersFitFields : List (String × Json) → Prop
  | [] => True
  | (_, j) :: rest => NumbersFit j ∧ NumbersFitFields rest

end

theorem ofFloat_ne_int (x : Float) (n : Int) : ofFloat x ≠ .int n := by
  unfold ofFloat
  split <;> nofun

theorem ofFloat_eq_self_iff {x : Float} :
    ofFloat x = .float x ↔ (Number.Parts.ofFloat x).isFinite = true := by
  unfold ofFloat
  split <;> simp_all

theorem keys_readBackFields (fields : List (String × Json)) :
    (readBackFields fields).map Prod.fst = fields.map Prod.fst := by
  induction fields with
  | nil => rfl
  | cons e rest ih => exact congrArg (List.cons e.1) ih

theorem readBack_object {fields : List (String × Json)} (hnodup : (fields.map Prod.fst).Nodup) :
    (object fields).readBack = .object (readBackFields fields) := by
  rw [readBack, Fields.entries_ofList (by rwa [keys_readBackFields])]

mutual

theorem readBack_eq_self_iff (j : Json) (hj : j.WellFormed) : j.readBack = j ↔ j.NumbersFit := by
  match j with
  | .null | .bool _ | .string _ => simp [readBack, NumbersFit]
  | .int n =>
    rw [readBack, NumbersFit]
    split
    · rename_i hn
      exact iff_of_true rfl hn
    · rename_i hn
      exact iff_of_false (ofFloat_ne_int _ n) hn
  | .float x => rw [readBack, NumbersFit, ofFloat_eq_self_iff]
  | .array items => rw [readBack, NumbersFit, array.injEq, readBackItems_eq_self_iff items hj]
  | .object fields =>
    rw [readBack_object hj.1, NumbersFit, object.injEq, readBackFields_eq_self_iff fields hj.2]

theorem readBackItems_eq_self_iff (items : List Json) (hitems : WellFormedItems items) :
    readBackItems items = items ↔ NumbersFitItems items := by
  match items with
  | [] => simp [readBackItems, NumbersFitItems]
  | j :: rest =>
    rw [readBackItems, NumbersFitItems, List.cons.injEq, readBack_eq_self_iff j hitems.1,
      readBackItems_eq_self_iff rest hitems.2]

theorem readBackFields_eq_self_iff (fields : List (String × Json))
    (hfields : WellFormedFields fields) :
    readBackFields fields = fields ↔ NumbersFitFields fields := by
  match fields with
  | [] => simp [readBackFields, NumbersFitFields]
  | (k, j) :: rest =>
    rw [readBackFields, NumbersFitFields, List.cons.injEq, Prod.mk.injEq,
      readBack_eq_self_iff j hfields.1, readBackFields_eq_self_iff rest hfields.2]
    simp

end

end Json

/-! ## There and back -/

/-- The value of a document reads back as the document, with its items and fields in their order,
as long as what the value was built from stays in the heap. What was in the heap before stays as it
was. -/
theorem toJson_ofJson_eq_self_iff (j : Json) (hj : j.WellFormed) (h : Heap) :
    (∀ h', (Value.ofJson j h).2.Extends h' →
      ((Value.ofJson j h).1.toJson h' = j ↔ j.NumbersFit)) ∧
    h.Extends (Value.ofJson j h).2 ∧ (Value.ofJson j h).2.natives = h.natives := by
  have huntouched := ((readable_untouched { heap := h }).ofJson j (.refl _)).1
  refine ⟨fun h' he => ?_, huntouched.heap, huntouched.natives⟩
  have hread : (Value.ofJson j h).1.toJson h' = j.readBack :=
    Value.unfold_ofJson j he fun _ hc => nomatch hc
  rw [hread, Json.readBack_eq_self_iff j hj]

namespace Nested

/-- Arrays and objects in each other, with the least and the greatest integer. -/
def document : Json :=
  .object [("b", .array [.int (-9223372036854775808), .array [], .object [("b", .float 1.5)]]),
    ("a", .array [.string "<cycle>", .int 9223372036854775807, .null])]

/-- A list that contains itself. -/
def old : Heap := { lists := #[[.list ⟨0⟩]] }

theorem toJson_ofJson_document :
    (Value.ofJson document old).1.toJson (Value.ofJson document old).2 = document ∧
      (Value.ofJson document old).2.list ⟨0⟩ = [.list ⟨0⟩] := by
  have hwf : document.WellFormed := by
    simp [document, Json.WellFormed, Json.WellFormedItems, Json.WellFormedFields]
  have hfit : document.NumbersFit := by
    have hfinite : (Number.Parts.ofFloat 1.5).isFinite = true := by decide
    have hmax : Int64.maxValue.toInt = 9223372036854775807 := rfl
    simp [document, Json.NumbersFit, Json.NumbersFitItems, Json.NumbersFitFields, hfinite, hmax]
  obtain ⟨hback, hextends, -⟩ := toJson_ofJson_eq_self_iff document hwf old
  exact ⟨(hback _ (.refl _)).2 hfit, hextends.list (by decide)⟩

end Nested

end Sigil
