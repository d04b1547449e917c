import Sigil.Proofs.DocumentCopies
import Sigil.Proofs.PathSegments

/-!
# Walking along names

A path such as `$.rows.0.name` is a list of names, and each name selects a member of the value
where the walk has come to (`Heap.Walks`). In a list or map the name selects a slot. A walk that
reads slots only (`Heap.Leads`) stays as it was when another slot is written (`Heap.Leads.write`).
Every other walk to a list or map leads into the identifier in the result of an insert
(`Heap.Walks.arrives`), which is a new copy for each walk.

A walk gets lost where a value is missing or null (`Heap.Lost`), and it gets lost again in every
heap with the same contents (`Heap.Lost.extend`).
-/

namespace Sigil

/-! ## Paths of names -/

namespace Path

/-- A name that is read as itself in a path. -/
def IsName (name : String) : Prop := name.toList ≠ [] ∧ ∀ c ∈ name.toList, isNameChar c = true

/-- The names, each after a point. -/
def pointed (names : List String) : List Char := names.flatMap fun name => '.' :: name.toList

/-- The path of some names, such as `$.a.b`. -/
def ofNames (names : List String) : String := String.ofList (sigil :: pointed names)

/-- The segments of a path of names, of which the last is given apart. -/
def Trail.ofNames : List String → String → Trail
  | [], target => .last (.name target.toList)
  | name :: front, target => .step (.name name.toList) (ofNames front target)

theorem takeWhile_pointed (names : List String) : (pointed names).takeWhile isNameChar = [] := by
  cases names <;> rfl

/-- The segments of a path of names. -/
theorem spells_names {names : List String} (hnames : ∀ name ∈ names, IsName name) :
    Spells (dropPoint (pointed names)) (names.map fun name => .name name.toList) [] := by
  induction names with
  | nil => exact .nil []
  | cons name names ih =>
    rw [List.forall_mem_cons] at hnames
    exact spells_cons_iff.2 ⟨_,
      nextSegment?_name hnames.1.1 hnames.1.2 (takeWhile_pointed names), ih hnames.2⟩

theorem Trail.ofNames_eq_after (front : List String) (target : String) :
    Trail.ofNames front target =
      (Trail.last (.name target.toList)).after (front.map fun name => .name name.toList) := by
  induction front with
  | nil => rfl
  | cons name front ih => rw [Trail.ofNames, ih]; rfl

theorem ofText_names {front : List String} {target : String}
    (hnames : ∀ name ∈ front ++ [target], IsName name) :
    Trail.ofText (dropPoint (pointed (front ++ [target]))) = Trail.ofNames front target := by
  have hspells := spells_names hnames
  rw [List.map_append] at hspells
  rw [Trail.ofNames_eq_after]
  exact Trail.read_of_spells hspells (Nat.le_refl _)

end Path

namespace Scope

open Sigil.Path

variable {sc : Scope} (hvalues : sc.values = .empty)

include hvalues

/-- A path of names is walked from the environment. -/
theorem resolve_ofNames {front : List String} {target : String}
    (hnames : ∀ name ∈ front ++ [target], IsName name) :
    sc.resolve (.ofForm (.string (Path.ofNames (front ++ [target])))) =
      sc.walk (.ofNames front target) (.map sc.env) := by
  obtain ⟨cs, hcs⟩ : ∃ cs, pointed (front ++ [target]) = '.' :: cs := by
    cases front <;> exact ⟨_, rfl⟩
  have htext : (Operand.ofForm (.string (Path.ofNames (front ++ [target])))).text? =
      some (Path.ofNames (front ++ [target])) := by
    simp [Operand.ofForm, Operand.text?, Path.ofNames, hcs, sigil, normalizePath, Json.string?]
  have htrail := ofText_names hnames
  rw [hcs] at htrail
  rw [Scope.resolve, htext]
  simp only [Path.ofNames, String.toList_ofList, hcs]
  rw [resolveText_point (by rw [hvalues]; rfl), ← htrail]
  rfl

theorem key_name (name : String) (s : State) :
    sc.key (.name name.toList) s = .ended ⟨.ok (.string name), s⟩ :=
  key_of_hasKey hvalues ⟨by rw [String.ofList_toList], rfl⟩

end Scope

/-! ## Slots -/

/-- A place in a container. -/
inductive Slot where
  | element (r : ListRef) (i : Nat)
  | field (r : MapRef) (name : String)
deriving DecidableEq

/-- The slot that a name selects. Names of list elements are numerals, so several can select one
slot. -/
def Value.slot? : Value → String → Option Slot
  | .list r, name => (Number.readWord? name.toList).map (.element r)
  | .map r, name => some (.field r name)
  | _, _ => none

namespace Slot

def read (h : Heap) : Slot → Option Value
  | .element r i => (h.list r)[i]?
  | .field r name => (h.map r).get? name

def write (h : Heap) (x : Value) : Slot → Heap
  | .element r i => h.setList r ((h.list r).set i x)
  | .field r name => h.setMap r ((h.map r).set name x)

/-- There is such an element, or a map for the field. -/
def InHeap (h : Heap) : Slot → Prop
  | .element r i => i < (h.list r).length
  | .field r _ => r.index < h.maps.size

theorem read_write_self {h : Heap} {slot : Slot} (hslot : slot.InHeap h) (x : Value) :
    slot.read (slot.write h x) = some x := by
  cases slot with
  | element r i =>
    have hr : r.index < h.lists.size := Heap.lt_size_of_mem_list (List.getElem_mem hslot)
    simp only [read, write]
    rw [Heap.list_setList hr, List.getElem?_set_self hslot]
  | field r name =>
    simp only [read, write]
    rw [Heap.map_setMap hslot, Fields.get?_set, if_pos rfl]

theorem read_write_of_ne {slot other : Slot} (hne : other ≠ slot) (h : Heap) (x : Value) :
    other.read (slot.write h x) = other.read h := by
  cases slot with
  | element r i =>
    cases other with
    | element r' j =>
      by_cases hr : r' = r
      · subst hr
        have hji : j ≠ i := fun hji => hne (by rw [hji])
        exact h.getElem?_setList_ne r' hji x
      · have hv : Value.list r' ≠ .list r := fun heq => hr (Value.list.inj heq)
        exact congrArg (·[j]?) (Heap.agrees_setList hv ((h.list r).set i x))
    | field r' name => rfl
  | field r name =>
    cases other with
    | element r' j => rfl
    | field r' name' =>
      by_cases hr : r' = r
      · subst hr
        have hname : name' ≠ name := fun hname => hne (by rw [hname])
        exact h.get?_setMap_ne r' hname x
      · have hv : Value.map r' ≠ .map r := fun heq => hr (Value.map.inj heq)
        exact congrArg (·.get? name') (Heap.agrees_setMap hv ((h.map r).set name x))

theorem read_of_extends {h h' : Heap} (he : h.Extends h') {slot : Slot} {x : Value}
    (hread : slot.read h = some x) : slot.read h' = some x := by
  cases slot with
  | element r i =>
    have hr : r.index < h.lists.size := Heap.lt_size_of_mem_list (List.mem_of_getElem? hread)
    simpa only [read, he.list hr] using hread
  | field r name =>
    have hr : r.index < h.maps.size := Heap.lt_size_of_mem_map (Fields.mem_entries.2 hread)
    simpa only [read, he.map hr] using hread

theorem natives_write (h : Heap) (x : Value) (slot : Slot) :
    (slot.write h x).natives = h.natives := by
  cases slot <;> rfl

end Slot

theorem Value.isContainer_of_slot? {v : Value} {name : String} {slot : Slot}
    (hslot : v.slot? name = some slot) : v.isContainer = true := by
  cases v with
  | list r => rfl
  | map r => rfl
  | _ => cases hslot

/-- Writing to a new container leaves all that was there before. -/
theorem Heap.Extends.write {h h' : Heap} (he : h.Extends h') {v : Value} (hv : v.IsNew h)
    {name : String} {slot : Slot} (hslot : v.slot? name = some slot) (x : Value) :
    h.Extends (slot.write h' x) := by
  cases v with
  | list r =>
    obtain ⟨i, -, rfl⟩ := Option.map_eq_some_iff.1 hslot
    exact he.setList hv _
  | map r =>
    obtain rfl := Option.some.inj hslot
    exact he.setMap hv _
  | _ => cases hslot

theorem Value.member_of_slot? {v : Value} {name : String} {slot : Slot}
    (hslot : v.slot? name = some slot) (h : Heap) :
    v.member h (.string name) = (slot.read h).map (·, h) := by
  cases v with
  | list r =>
    obtain ⟨i, hi, rfl⟩ := Option.map_eq_some_iff.1 hslot
    simp [member, index?, hi, Slot.read]
  | map r =>
    obtain rfl := Option.some.inj hslot
    rfl
  | _ => cases hslot

theorem Value.assign_of_slot? {v : Value} {name : String} {slot : Slot}
    (hslot : v.slot? name = some slot) (h : Heap) (x : Value) :
    v.assign h (.string name) x = .ok (slot.write h x) := by
  cases v with
  | list r =>
    obtain ⟨i, hi, rfl⟩ := Option.map_eq_some_iff.1 hslot
    simp [assign, index?, hi, Slot.write]
  | map r =>
    obtain rfl := Option.some.inj hslot
    rfl
  | _ => cases hslot

theorem Value.slot?_of_member {v x : Value} {name : String} {h h' : Heap}
    (hm : v.member h (.string name) = some (x, h')) :
    (h' = h ∧ ∃ slot, v.slot? name = some slot ∧ slot.read h = some x) ∨ ∃ r, v = .native r := by
  cases v with
  | list r =>
    obtain ⟨y, hy, heq⟩ := Option.map_eq_some_iff.1 hm
    obtain ⟨rfl, rfl⟩ := Prod.mk.inj heq
    obtain ⟨i, hi, hy⟩ := Option.bind_eq_some_iff.1 hy
    exact .inl ⟨rfl, .element r i, congrArg (Option.map _) hi, hy⟩
  | map r =>
    obtain ⟨y, hy, heq⟩ := Option.map_eq_some_iff.1 hm
    obtain ⟨rfl, rfl⟩ := Prod.mk.inj heq
    exact .inl ⟨rfl, .field r name, rfl, hy⟩
  | native r => exact .inr ⟨r, rfl⟩
  | _ => cases hm

/-! ## Walks that arrive -/

namespace Heap

/-- The names lead from one value to another, through values that are not null. Reading a member may
allocate, so the walk ends in a heap of its own. -/
inductive Walks : Heap → Value → List String → Value → Heap → Prop where
  | here (h : Heap) (v : Value) : Walks h v [] v h
  | step {h h' k : Heap} {v x w : Value} {name : String} {names : List String}
      (hm : v.member h (.string name) = some (x, h')) (hx : x.isNull = false)
      (hrest : Walks h' x names w k) : Walks h v (name :: names) w k

/-- The names lead from one value to another, through slots with values that are not null. Values
that native objects hold are no slots, since nothing can be written there. -/
inductive Leads (h : Heap) : Value → List String → List Slot → Value → Prop where
  | here (v : Value) : Leads h v [] [] v
  | step {v x w : Value} {name : String} {names : List String} {slot : Slot} {slots : List Slot}
      (hslot : v.slot? name = some slot) (hread : slot.read h = some x) (hx : x.isNull = false)
      (hrest : Leads h x names slots w) : Leads h v (name :: names) (slot :: slots) w
  | held {r : NativeRef} {x w : Value} {name : String} {names : List String} {slots : List Slot}
      (hm : (h.native r).member? r name = some (.held x)) (hx : x.isNull = false)
      (hrest : Leads h x names slots w) : Leads h (.native r) (name :: names) slots w

/-- Writing to a slot does not change a walk that does not read it. -/
theorem Leads.write {h : Heap} {v w : Value} {names : List String} {slots : List Slot}
    (hleads : h.Leads v names slots w) {slot : Slot} (hslot : slot ∉ slots) (x : Value) :
    (slot.write h x).Leads v names slots w := by
  induction hleads with
  | here v => exact .here v
  | step hfirst hread hx _ ih =>
    rw [List.mem_cons, not_or] at hslot
    refine .step hfirst ?_ hx (ih hslot.2)
    rw [Slot.read_write_of_ne (Ne.symm hslot.1), hread]
  | held hm hx _ ih =>
    refine .held ?_ hx (ih hslot)
    rwa [native, Slot.natives_write]

theorem Leads.extend {h h' : Heap} {v w : Value} {names : List String} {slots : List Slot}
    (hleads : h.Leads v names slots w) (he : h.Extends h') (hn : h'.natives = h.natives) :
    h'.Leads v names slots w := by
  induction hleads with
  | here v => exact .here v
  | step hfirst hread hx _ ih => exact .step hfirst (Slot.read_of_extends he hread) hx ih
  | held hm hx _ ih => exact .held (by rwa [native, hn]) hx ih

theorem member_of_held {h : Heap} {r : NativeRef} {name : String} {x : Value}
    (hm : (h.native r).member? r name = some (.held x)) :
    (Value.native r).member h (.string name) = some (x, h) := by
  change Value.nativeMember h r name = _
  rw [Value.nativeMember, hm]
  rfl

theorem Leads.walks_append {h k : Heap} {v x w : Value} {before after : List String}
    {slots : List Slot} (hleads : h.Leads v before slots x) (hrest : h.Walks x after w k) :
    h.Walks v (before ++ after) w k := by
  induction hleads with
  | here v => exact hrest
  | @step v x y name names slot slots hslot hread hx _ ih =>
    refine .step (x := x) ?_ hx (ih hrest)
    rw [Value.member_of_slot? hslot, hread]
    rfl
  | held hm hx _ ih => exact .step (member_of_held hm) hx (ih hrest)

theorem Leads.walks {h : Heap} {v w : Value} {names : List String} {slots : List Slot}
    (hleads : h.Leads v names slots w) : h.Walks v names w h := by
  simpa using hleads.walks_append (.here h w)

end Heap

theorem Scope.walk_of_walks {sc : Scope} (hvalues : sc.values = .empty) {s : State} {v w : Value}
    {front : List String} {k : Heap} (hwalks : s.heap.Walks v front w k) (target : String) :
    sc.walk (.ofNames front target) v s =
      .ended ⟨.ok (.slot (.string target) w), { s with heap := k }⟩ := by
  generalize hh : s.heap = h at hwalks
  induction hwalks generalizing s with
  | here h v =>
    subst hh
    exact EvalM.bind_of_ok (key_name hvalues target s)
  | @step h h' k v x w name names hm hx _ ih =>
    subst hh
    refine (EvalM.bind_of_ok (key_name hvalues name s)).trans ?_
    refine (EvalM.bind_of_ok (EvalM.member?_of_some hm)).trans ?_
    simpa [hx] using ih (s := { s with heap := h' }) rfl

theorem untouched_of_walks {s : State} {v w : Value} {names : List String} {k : Heap}
    (hwalks : s.heap.Walks v names w k) : s.Untouched { s with heap := k } := by
  generalize hh : s.heap = h at hwalks
  induction hwalks generalizing s with
  | here h v =>
    subst hh
    exact .refl s
  | @step h h' k v x w name names hm _ _ ih =>
    subst hh
    have hmember := ((readable_untouched s).member (.refl s) trivial hm).1
    exact hmember.trans (ih (s := { s with heap := h' }) rfl)

/-! ## Walks into the documents of native objects -/

namespace Heap

/-- The names lead into a document that a native object makes anew for each reader, such as the
identifier in the result of an insert, and to a part of it. -/
inductive LeadsIntoDocument (h : Heap) (v : Value) (j : Json) : List String → Prop where
  | intro {before inside : List String} {slots : List Slot} {r : NativeRef} {name : String}
      {doc : Json} (hleads : h.Leads v before slots (.native r))
      (hdoc : (h.native r).member? r name = some (.document doc)) (hat : doc.at? inside = some j) :
      LeadsIntoDocument h v j (before ++ name :: inside)

theorem LeadsIntoDocument.step {h : Heap} {v x : Value} {j : Json} {name : String}
    {names : List String} {slot : Slot} (hslot : v.slot? name = some slot)
    (hread : slot.read h = some x) (hx : x.isNull = false) (hinto : h.LeadsIntoDocument x j names) :
    h.LeadsIntoDocument v j (name :: names) := by
  obtain ⟨hleads, hdoc, hat⟩ := hinto
  exact .intro (.step hslot hread hx hleads) hdoc hat

theorem LeadsIntoDocument.held {h : Heap} {r : NativeRef} {x : Value} {j : Json} {name : String}
    {names : List String} (hm : (h.native r).member? r name = some (.held x))
    (hx : x.isNull = false) (hinto : h.LeadsIntoDocument x j names) :
    h.LeadsIntoDocument (.native r) j (name :: names) := by
  obtain ⟨hleads, hdoc, hat⟩ := hinto
  exact .intro (.held hm hx hleads) hdoc hat

theorem LeadsIntoDocument.extend {h h' : Heap} {v : Value} {j : Json} {names : List String}
    (hinto : h.LeadsIntoDocument v j names) (he : h.Extends h') (hn : h'.natives = h.natives) :
    h'.LeadsIntoDocument v j names := by
  obtain ⟨hleads, hdoc, hat⟩ := hinto
  refine .intro (hleads.extend he hn) ?_ hat
  rwa [native, hn]

/-- A walk in a copy stays in it. -/
theorem Walks.of_copy {old h k : Heap} {v w : Value} {names : List String}
    (hwalks : h.Walks v names w k) {j : Json} (hc : Value.IsCopy old h j v) :
    ∃ i, j.at? names = some i ∧ Value.IsCopy old k i w := by
  induction hwalks generalizing j with
  | here h v => exact ⟨j, rfl, hc⟩
  | @step h h' k v x w name names hm _ _ ih =>
    cases hj : j.member? name with
    | none =>
      rw [hc.member_of_none hj] at hm
      cases hm
    | some i =>
      obtain ⟨y, hy, hc⟩ := hc.member_of_some hj
      obtain ⟨rfl, rfl⟩ := Prod.mk.inj (Option.some.inj (hm.symm.trans hy))
      obtain ⟨part, hat, hpart⟩ := ih hc
      exact ⟨part, by simpa [Json.at?, hj] using hat, hpart⟩

/-- Every part of the document can be reached in a copy. -/
theorem walks_of_copy {old h : Heap} {v : Value} {j i : Json} {names : List String}
    (hc : Value.IsCopy old h j v) (hat : j.at? names = some i) (hi : i ≠ .null) :
    ∃ w, h.Walks v names w h ∧ Value.IsCopy old h i w := by
  induction names generalizing j v with
  | nil =>
    obtain rfl := Option.some.inj hat
    exact ⟨v, .here h v, hc⟩
  | cons name names ih =>
    obtain ⟨j', hj, hat⟩ := Option.bind_eq_some_iff.1 hat
    obtain ⟨x, hm, hx⟩ := hc.member_of_some hj
    obtain ⟨w, hwalks, hw⟩ := ih hx hat
    have hnull := hx.isNull_eq_false (Json.ne_null_of_at? hat hi)
    exact ⟨w, .step hm hnull hwalks, hw⟩

theorem LeadsIntoDocument.walks {h : Heap} {v : Value} {j : Json} {names : List String}
    (hinto : h.LeadsIntoDocument v j names) (hj : j ≠ .null) :
    ∃ w k, h.Walks v names w k ∧ Value.IsCopy h k j w := by
  obtain @⟨before, inside, slots, r, name, doc, hleads, hdoc, hat⟩ := hinto
  have hm : (Value.native r).member h (.string name) = some (Value.ofJson doc h) := by
    change Value.nativeMember h r name = _
    rw [Value.nativeMember, hdoc]
    rfl
  have hcopy : Value.IsCopy h (Value.ofJson doc h).2 doc (Value.ofJson doc h).1 :=
    Value.isCopy_of_ofJson rfl
  obtain ⟨w, hwalks, hw⟩ := walks_of_copy hcopy hat hj
  have hnull := hcopy.isNull_eq_false (Json.ne_null_of_at? hat hj)
  exact ⟨w, _, hleads.walks_append (.step hm hnull hwalks), hw⟩

/-- Functions have no members, so no walk goes on from them. -/
theorem Walks.eq_of_host {h k : Heap} {f : HostRef} {w : Value} {names : List String}
    (hwalks : h.Walks (.host f) names w k) : w = .host f := by
  cases hwalks with
  | here => rfl
  | step hm _ _ => cases hm

/-- A walk to a list or map reads slots and what native objects hold, or leads into a document of a
native object. -/
theorem Walks.arrives {h k : Heap} {v w : Value} {names : List String}
    (hwalks : h.Walks v names w k) (hw : w.isContainer = true) :
    (k = h ∧ ∃ slots, h.Leads v names slots w) ∨
      ∃ j, h.LeadsIntoDocument v j names ∧ Value.IsCopy h k j w := by
  induction hwalks with
  | here h v => exact .inl ⟨rfl, [], .here v⟩
  | @step h h' k v x w name names hm hx hrest ih =>
    rcases Value.slot?_of_member hm with ⟨rfl, slot, hslot, hread⟩ | ⟨r, rfl⟩
    · rcases ih hw with ⟨rfl, slots, hleads⟩ | ⟨j, hinto, hj⟩
      · exact .inl ⟨rfl, slot :: slots, .step hslot hread hx hleads⟩
      · exact .inr ⟨j, .step hslot hread hx hinto, hj⟩
    · obtain ⟨m, hmember, hvalue⟩ := Option.map_eq_some_iff.1 hm
      cases m with
      | held y =>
        obtain ⟨rfl, rfl⟩ := Prod.mk.inj hvalue
        rcases ih hw with ⟨rfl, slots, hleads⟩ | ⟨j, hinto, hj⟩
        · exact .inl ⟨rfl, slots, .held hmember hx hleads⟩
        · exact .inr ⟨j, .held hmember hx hinto, hj⟩
      | document doc =>
        obtain ⟨j, hat, hj⟩ := hrest.of_copy (Value.isCopy_of_ofJson hvalue)
        exact .inr ⟨j, .intro (.here _) hmember hat, hj⟩
      | function f =>
        obtain ⟨rfl, rfl⟩ := Prod.mk.inj hvalue
        rw [hrest.eq_of_host] at hw
        cases hw

end Heap

/-! ## Walks that get lost -/

namespace Heap

/-- On the way along the names a value is missing or null. What a container outside of the heap has
for members is not known. -/
inductive Lost : Heap → Value → List String → Prop where
  | missing {h : Heap} {v : Value} {name : String} (names : List String)
      (hv : v.isContainer = true → ¬ v.IsNew h)
      (hm : v.member h (.string name) = none) : Lost h v (name :: names)
  | null {h h' : Heap} {v : Value} {name : String} (names : List String)
      (hm : v.member h (.string name) = some (.null, h')) : Lost h v (name :: names)
  | step {h h' : Heap} {v x : Value} {name : String} {names : List String}
      (hm : v.member h (.string name) = some (x, h')) (hrest : Lost h' x names) :
      Lost h v (name :: names)

end Heap

namespace Heap

/-- Whether a walk gets lost in a copy of a document does not depend on the copy. -/
theorem Lost.copy {old h old' h' : Heap} {v v' : Value} {names : List String}
    (hlost : h.Lost v names) {j : Json} (hc : Value.IsCopy old h j v)
    (hc' : Value.IsCopy old' h' j v') : h'.Lost v' names := by
  induction hlost generalizing j v' with
  | @missing h v name names _ hm =>
    rcases hc.member_both hc' name with ⟨-, hm'⟩ | ⟨i, x, x', hx, -⟩
    · exact .missing names (fun _ => hc'.not_isNew) hm'
    · rw [hm] at hx
      cases hx
  | @null h k v name names hm =>
    rcases hc.member_both hc' name with ⟨hm', -⟩ | ⟨i, x, x', hx, hx', hcx, hcx'⟩
    · rw [hm] at hm'
      cases hm'
    · obtain ⟨rfl, rfl⟩ := Prod.mk.inj (Option.some.inj (hm.symm.trans hx))
      obtain rfl := hcx.eq_null_iff.1 rfl
      obtain rfl := hcx'.eq_null_iff.2 rfl
      exact .null names hx'
  | @step h k v x name names hm _ ih =>
    rcases hc.member_both hc' name with ⟨hm', -⟩ | ⟨i, y, y', hy, hy', hcy, hcy'⟩
    · rw [hm] at hm'
      cases hm'
    · obtain ⟨rfl, rfl⟩ := Prod.mk.inj (Option.some.inj (hm.symm.trans hy))
      exact .step hy' (ih hcy hcy')

/-! ## The same walk in a larger heap -/

/-- What a name selects in two heaps: the same, copies of one document, or functions. -/
inductive SameMember (h h' : Heap) (v : Value) (name : String) (x : Value) (k : Heap) : Prop where
  | same (hk : k = h) (hm' : v.member h' (.string name) = some (x, h'))
  | copy {j : Json} {x' : Value} {k' : Heap} (hc : Value.IsCopy h k j x)
      (hm' : v.member h' (.string name) = some (x', k')) (hc' : Value.IsCopy h' k' j x')
  | function {f f' : HostRef} {k' : Heap} (hf : x = .host f)
      (hm' : v.member h' (.string name) = some (.host f', k'))

theorem sameMember_native {h h' k : Heap} (hn : h'.natives = h.natives) {r : NativeRef} {x : Value}
    {name : String} (hm : (Value.native r).member h (.string name) = some (x, k)) :
    SameMember h h' (.native r) name x k := by
  obtain ⟨m, hmember, hvalue⟩ := Option.map_eq_some_iff.1 hm
  have hm' : (Value.native r).member h' (.string name) = some (Value.ofMember h' m) := by
    refine Option.map_eq_some_iff.2 ⟨m, ?_, rfl⟩
    rwa [native, hn]
  cases m with
  | held y =>
    obtain ⟨rfl, rfl⟩ := Prod.mk.inj hvalue
    exact .same rfl hm'
  | document doc => exact .copy (Value.isCopy_of_ofJson hvalue) hm' (Value.isCopy_of_ofJson rfl)
  | function f =>
    obtain ⟨rfl, rfl⟩ := Prod.mk.inj hvalue
    exact .function rfl hm'

theorem sameMember_of_extends {h h' k : Heap} (he : h.Extends h') (hn : h'.natives = h.natives)
    {v x : Value} {name : String} (hm : v.member h (.string name) = some (x, k)) :
    SameMember h h' v name x k := by
  rcases Value.slot?_of_member hm with ⟨hk, slot, hslot, hread⟩ | ⟨r, rfl⟩
  · refine .same hk ?_
    rw [Value.member_of_slot? hslot, Slot.read_of_extends he hread]
    rfl
  · exact sameMember_native hn hm

theorem member_eq_none_of_extends {h h' : Heap} (he : h.Extends h') (hn : h'.natives = h.natives)
    {v : Value} (hv : v.isContainer = true → ¬ v.IsNew h) {name : String}
    (hm : v.member h (.string name) = none) : v.member h' (.string name) = none := by
  cases v with
  | list r =>
    rw [Value.member, Option.map_eq_none_iff] at hm ⊢
    rw [he.list (Nat.lt_of_not_le (hv rfl)), hm]
  | map r =>
    rw [Value.member, Option.map_eq_none_iff] at hm ⊢
    rw [he.map (Nat.lt_of_not_le (hv rfl)), hm]
  | native r =>
    change Value.nativeMember h r name = none at hm
    change Value.nativeMember h' r name = none
    rw [Value.nativeMember, Option.map_eq_none_iff] at hm ⊢
    rwa [native, hn]
  | _ => rfl

/-- A walk that gets lost does so as well where more was allocated. -/
theorem Lost.extend {h h' : Heap} {v : Value} {names : List String} (hlost : h.Lost v names)
    (he : h.Extends h') (hn : h'.natives = h.natives) : h'.Lost v names := by
  induction hlost generalizing h' with
  | missing names hv hm =>
    exact .missing names (fun hc hnew => hv hc (he.isNew_of_isContainer hc hnew))
      (member_eq_none_of_extends he hn hv hm)
  | null names hm =>
    cases sameMember_of_extends he hn hm with
    | same _ hm' => exact .null names hm'
    | copy hc hm' hc' =>
      obtain rfl := hc.eq_null_iff.1 rfl
      obtain rfl := hc'.eq_null_iff.2 rfl
      exact .null names hm'
    | function hf => cases hf
  | @step h k v x name names hm hrest ih =>
    cases sameMember_of_extends he hn hm with
    | same hk hm' =>
      subst hk
      exact .step hm' (ih he hn)
    | copy hc hm' hc' => exact .step hm' (hrest.copy hc hc')
    | function hf hm' =>
      -- Functions have no members.
      subst hf
      refine .step hm' ?_
      cases hrest with
      | missing names _ _ => exact .missing names nofun rfl
      | null _ hm => cases hm
      | step hm _ => cases hm

end Heap

theorem Scope.walk_of_lost {sc : Scope} (hvalues : sc.values = .empty) {s : State} {v : Value}
    {front : List String} (hlost : s.heap.Lost v front) (target : String) :
    ∃ u, sc.walk (.ofNames front target) v s = .ended ⟨.ok .notFound, u⟩ ∧ s.Untouched u := by
  generalize hh : s.heap = h at hlost
  induction hlost generalizing s with
  | @missing h v name names _ hm =>
    subst hh
    refine ⟨s, ?_, .refl s⟩
    refine (EvalM.bind_of_ok (key_name hvalues name s)).trans ?_
    exact EvalM.bind_of_ok (EvalM.member?_of_none hm)
  | @null h k v name names hm =>
    subst hh
    refine ⟨{ s with heap := k }, ?_, ((readable_untouched s).member (.refl s) trivial hm).1⟩
    refine (EvalM.bind_of_ok (key_name hvalues name s)).trans ?_
    exact EvalM.bind_of_ok (EvalM.member?_of_some hm)
  | @step h k v x name names hm _ ih =>
    subst hh
    have hmember := ((readable_untouched s).member (.refl s) trivial hm).1
    obtain ⟨u, hwalk, hu⟩ := ih (s := { s with heap := k }) rfl
    by_cases hx : x.isNull = true
    · refine ⟨{ s with heap := k }, ?_, hmember⟩
      refine (EvalM.bind_of_ok (key_name hvalues name s)).trans ?_
      refine (EvalM.bind_of_ok (EvalM.member?_of_some hm)).trans ?_
      simp only [hx, if_true]
      rfl
    · refine ⟨u, ?_, hmember.trans hu⟩
      refine (EvalM.bind_of_ok (key_name hvalues name s)).trans ?_
      refine (EvalM.bind_of_ok (EvalM.member?_of_some hm)).trans ?_
      simpa [hx] using hwalk

/-! ## Where paths of names lead -/

namespace Scope

variable (sc : Scope) (hvalues : sc.values = .empty) {front : List String} {target : String}
  (hnames : ∀ name ∈ front ++ [target], Path.IsName name) {s : State}

include hvalues hnames

theorem resolve_of_walks {w : Value} {k : Heap} (hwalks : s.heap.Walks (.map sc.env) front w k) :
    sc.resolve (.ofForm (.string (Path.ofNames (front ++ [target])))) s =
      .ended ⟨.ok (.slot (.string target) w), { s with heap := k }⟩ := by
  rw [resolve_ofNames hvalues hnames]
  exact walk_of_walks hvalues hwalks target

theorem resolve_of_lost (hlost : s.heap.Lost (.map sc.env) front) :
    ∃ u, sc.resolve (.ofForm (.string (Path.ofNames (front ++ [target])))) s =
      .ended ⟨.ok .notFound, u⟩ ∧ s.Untouched u := by
  rw [resolve_ofNames hvalues hnames]
  exact walk_of_lost hvalues hlost target

end Scope

end Sigil
