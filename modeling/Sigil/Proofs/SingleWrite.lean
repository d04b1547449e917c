import Mathlib.Data.List.Infix
import Sigil.Proofs.PathWalk
import Sigil.Proofs.Termination

/-!
# What `set` changes

Between the evaluation of a value and the write, a path may evaluate any expressions in brackets and
read members of any objects. All the same `set` changes one slot at most, the one to which the path
leads, and nothing where there is no such slot or where it fails (`set_changes_one_slot`).
-/

namespace Sigil

open Sigil.Uniform

/-! ## Slots -/

/-- The container of the slot is in the heap. -/
def Slot.HeldBy (h : Heap) : Slot → Prop
  | .element r _ => r.index < h.lists.size
  | .field r _ => r.index < h.maps.size

theorem Fields.keys_isPrefix_set {α : Type} (f : Fields α) (name : String) (value : α) :
    f.keys <+: (f.set name value).keys := by
  obtain ⟨es, hes⟩ := f
  change es.map Prod.fst <+: (overwrite name value es).map Prod.fst
  clear hes
  induction es with
  | nil => exact List.nil_prefix
  | cons e rest ih =>
    by_cases he : e.1 = name
    · simp [overwrite, he]
    · simpa [overwrite, he] using ih

namespace Slot

theorem read_of_heldBy {h h' : Heap} (he : h.Extends h') {slot : Slot} (hslot : slot.HeldBy h) :
    slot.read h' = slot.read h := by
  cases slot with
  | element r i => simp only [read, he.list hslot]
  | field r name => simp only [read, he.map hslot]

theorem length_list_write (h : Heap) (x : Value) (slot : Slot) (r : ListRef) :
    ((slot.write h x).list r).length = (h.list r).length := by
  cases slot with
  | element r' i =>
    by_cases hr : r = r'
    · subst hr
      by_cases hsize : r.index < h.lists.size
      · simp [write, Heap.list_setList hsize]
      · simp [write, Heap.list, Heap.setList, Array.getD, hsize]
    · have hv : Value.list r ≠ .list r' := fun heq => hr (Value.list.inj heq)
      exact congrArg List.length (Heap.agrees_setList hv _)
  | field r' name => rfl

theorem keys_map_write (h : Heap) (x : Value) (slot : Slot) (r : MapRef) :
    (h.map r).keys <+: ((slot.write h x).map r).keys := by
  cases slot with
  | element r' i => exact List.prefix_rfl
  | field r' name =>
    by_cases hr : r = r'
    · subst hr
      by_cases hsize : r.index < h.maps.size
      · simp only [write, Heap.map_setMap hsize]
        exact Fields.keys_isPrefix_set _ _ _
      · simp [write, Heap.map, Heap.setMap, Array.getD, hsize]
    · have hv : Value.map r ≠ .map r' := fun heq => hr (Value.map.inj heq)
      have hmap : ((field r' name).write h x).map r = h.map r := Heap.agrees_setMap hv _
      rw [hmap]

end Slot

/-- All that was in the first state is in the second as it was, but for what is in one slot. Lists
keep their lengths, and the names of maps keep their places. -/
structure State.UntouchedBut (slot : Slot) (s t : State) : Prop where
  slots {other : Slot} : other ≠ slot → other.HeldBy s.heap → other.read t.heap = other.read s.heap
  lengths {r : ListRef} : r.index < s.heap.lists.size →
    (t.heap.list r).length = (s.heap.list r).length
  names {r : MapRef} : r.index < s.heap.maps.size → (s.heap.map r).keys <+: (t.heap.map r).keys
  closures : s.heap.closures.toList <+: t.heap.closures.toList
  functions : s.heap.functions.toList <+: t.heap.functions.toList
  natives : t.heap.natives = s.heap.natives
  rest : { t with heap := s.heap } = s

theorem State.Untouched.write {s t : State} (h : s.Untouched t) (slot : Slot) (x : Value) :
    s.UntouchedBut slot { t with heap := slot.write t.heap x } where
  slots hne hheld := by
    rw [Slot.read_write_of_ne hne, Slot.read_of_heldBy h.heap hheld]
  lengths hr := by
    rw [Slot.length_list_write, h.heap.list hr]
  names {r} hr := by
    rw [← h.heap.map hr]
    exact Slot.keys_map_write t.heap x slot r
  closures := by
    cases slot <;> exact h.heap.closures
  functions := by
    cases slot <;> exact h.heap.functions
  natives := (slot.natives_write t.heap x).trans h.natives
  rest := h.rest

/-! ## Writing to a location -/

/-- The slot of a key. A list has no slot beyond its end, and what is no container has none. -/
def Value.slotOf? (h : Heap) (v key : Value) : Option Slot :=
  match v with
  | .list r => (key.index?.filter fun i => i < (h.list r).length).map (.element r)
  | .map r => key.key?.map (.field r)
  | _ => none

/-- The slot to which a location leads. An empty key has none. -/
def Location.slot? (h : Heap) : Location → Option Slot
  | .slot key parent => if key.string? = some "" then none else parent.slotOf? h key
  | _ => none

/-- A location where a write is ignored. -/
inductive Location.Ignored (h : Heap) : Location → Prop where
  | notFound : Ignored h .notFound
  | whole (v : Value) : Ignored h (.whole v)
  | emptyKey (parent : Value) : Ignored h (.slot (.string "") parent)
  | nullParent (key : Value) : Ignored h (.slot key .null)
  | beyond {key : Value} {r : ListRef} {i : Nat} (hi : key.index? = some i)
      (hlength : (h.list r).length ≤ i) : Ignored h (.slot key (.list r))

theorem Heap.setList_list (h : Heap) (r : ListRef) : h.setList r (h.list r) = h := by
  by_cases hr : r.index < h.lists.size
  · simp [setList, list, Array.getD, Array.setIfInBounds, hr]
  · simp [setList, Array.setIfInBounds, hr]

namespace Value

variable {h : Heap} {v key : Value}

theorem assign_of_slotOf? {slot : Slot} (hslot : v.slotOf? h key = some slot) (x : Value) :
    v.assign h key x = .ok (slot.write h x) := by
  cases v with
  | list r =>
    obtain ⟨i, hi, rfl⟩ := Option.map_eq_some_iff.1 hslot
    obtain ⟨hi, -⟩ := Option.filter_eq_some_iff.1 hi
    simp only [assign, hi, Slot.write]
  | map r =>
    obtain ⟨name, hname, rfl⟩ := Option.map_eq_some_iff.1 hslot
    simp only [assign, hname, Slot.write]
  | _ => cases hslot

theorem assign_beyond {r : ListRef} {i : Nat} (hi : key.index? = some i)
    (hlength : (h.list r).length ≤ i) (x : Value) : assign h (.list r) key x = .ok h := by
  simp only [assign, hi, List.set_eq_of_length_le hlength, Heap.setList_list]

/-- What has no slot refuses a write or ignores it. -/
theorem assign_of_slotOf?_eq_none (hslot : v.slotOf? h key = none) (x : Value) :
    v.assign h key x = .ok h ∨ ∃ e, v.assign h key x = .error e := by
  cases v with
  | list r =>
    cases hi : key.index? with
    | none =>
      refine .inr ⟨.typeMismatch (.listIndex (key.kind h)), ?_⟩
      simp only [assign, hi]
    | some i =>
      simp only [slotOf?, hi, Option.map_eq_none_iff, Option.filter_some] at hslot
      exact .inl (assign_beyond hi (by simpa using hslot) x)
  | map r =>
    have hkey : key.key? = none := Option.map_eq_none_iff.1 hslot
    refine .inr ⟨.typeMismatch (.mapKey (key.kind h)), ?_⟩
    simp only [assign, hkey]
  | _ => exact .inr ⟨_, rfl⟩

end Value

theorem EvalM.assign_of_ok {v key x : Value} {s : State} {h : Heap}
    (ha : v.assign s.heap key x = .ok h) :
    EvalM.assign v key x s = .ended ⟨.ok (), { s with heap := h }⟩ := by
  refine (EvalM.bind_of_ok rfl).trans ?_
  rw [ha]
  rfl

theorem EvalM.assign_of_error {v key x : Value} {s : State} {e : EvalError}
    (ha : v.assign s.heap key x = .error e) : EvalM.assign v key x s = .ended ⟨.error e, s⟩ := by
  refine (EvalM.bind_of_ok rfl).trans ?_
  rw [ha]
  rfl

namespace Location

variable {location : Location} {s : State}

theorem Ignored.slot? {h : Heap} (hignored : location.Ignored h) : location.slot? h = none := by
  cases hignored with
  | notFound | whole | emptyKey => rfl
  | nullParent key => simp [Location.slot?, Value.slotOf?]
  | beyond hi hlength => simp [Location.slot?, Value.slotOf?, hi, hlength]

theorem writeAt_of_slot? {slot : Slot} (hslot : location.slot? s.heap = some slot) (x : Value) :
    Operators.writeAt x location s = .ended ⟨.ok (), { s with heap := slot.write s.heap x }⟩ := by
  cases location with
  | slot key parent =>
    obtain ⟨hkey, hslot⟩ : key.string? ≠ some "" ∧ parent.slotOf? s.heap key = some slot := by
      simpa [Location.slot?] using hslot
    have hparent : parent.isNull = false := by
      cases parent with
      | null => cases hslot
      | _ => rfl
    simp only [Operators.writeAt, hkey, hparent, decide_false, Bool.or_self, Bool.false_eq_true,
      if_false]
    exact EvalM.assign_of_ok (Value.assign_of_slotOf? hslot x)
  | _ => cases hslot

theorem writeAt_of_ignored (hignored : location.Ignored s.heap) (x : Value) :
    Operators.writeAt x location s = .ended ⟨.ok (), s⟩ := by
  cases hignored with
  | notFound | whole | emptyKey => rfl
  | nullParent key =>
    rw [Operators.writeAt, if_pos (by simp [Value.isNull])]
    rfl
  | beyond hi hlength =>
    rw [Operators.writeAt]
    split
    · rfl
    · exact EvalM.assign_of_ok (Value.assign_beyond hi hlength x)

theorem writeAt_of_slot?_eq_none (hslot : location.slot? s.heap = none) (x : Value) :
    ∃ result, Operators.writeAt x location s = .ended ⟨result, s⟩ := by
  cases location with
  | slot key parent =>
    rw [Operators.writeAt]
    split
    · exact ⟨_, rfl⟩
    · rename_i hwrites
      have hkey : key.string? ≠ some "" := by
        intro hkey
        simp [hkey] at hwrites
      rw [Location.slot?, if_neg hkey] at hslot
      rcases Value.assign_of_slotOf?_eq_none hslot x with hok | ⟨e, herror⟩
      · exact ⟨_, EvalM.assign_of_ok hok⟩
      · exact ⟨_, EvalM.assign_of_error herror⟩
  | _ => exact ⟨_, rfl⟩

/-- A write fills the slot of its location, or it changes nothing. -/
theorem exists_write (location : Location) (s : State) (x : Value) :
    ∃ result u, (Operators.writeAt x location >>= fun _ => pure Value.null) s = .ended ⟨result, u⟩ ∧
      (∀ slot, location.slot? s.heap = some slot →
        result = .ok .null ∧ u = { s with heap := slot.write s.heap x }) ∧
      (location.slot? s.heap = none → u = s) ∧
      (location.Ignored s.heap → result = .ok .null ∧ u = s) ∧
      ∀ e, result = .error e → u = s := by
  cases hslot : location.slot? s.heap with
  | some slot =>
    refine ⟨_, _, EvalM.bind_of_ok (writeAt_of_slot? hslot x), ?_, by simp, ?_, by simp⟩
    · rintro _ ⟨⟩
      exact ⟨rfl, rfl⟩
    · intro hignored
      rw [hignored.slot?] at hslot
      cases hslot
  | none =>
    obtain ⟨result, hwrite⟩ := writeAt_of_slot?_eq_none hslot x
    cases result with
    | ok =>
      exact ⟨_, _, EvalM.bind_of_ok hwrite, by simp, fun _ => rfl, fun _ => ⟨rfl, rfl⟩, by simp⟩
    | error e =>
      refine ⟨_, _, EvalM.bind_of_error hwrite, by simp, fun _ => rfl, ?_, fun _ _ => rfl⟩
      intro hignored
      rw [writeAt_of_ignored hignored] at hwrite
      cases hwrite

end Location

/-! ## Following the path -/

section Resolve

variable {reg : Registry} (hreg : reg.HasBuiltin) {depth : Nat} (env : MapRef) {path : String}

include hreg

theorem exists_resolve (hdepth : path.toList.length ≤ depth) (s : State) :
    ∃ o, (reg.scope (·.evaluate depth) env).resolve (.ofForm (.string path)) s = .ended o := by
  -- The expressions in brackets are shorter than the path.
  have hlocated : Located (fun form => ∃ t : List Char, t.length < depth ∧
      form = .string (String.ofList t)) (.ofText path.toList) :=
    located_ofText fun t ht => ⟨t, by omega, rfl⟩
  rw [Operand.ofText, String.ofList_toList] at hlocated
  have hends : AlikeWith False Location (Location.Within fun _ => True)
      ((reg.scope (·.evaluate depth) env).resolve (.ofForm (.string path)))
      ((reg.scope (·.evaluate depth) env).resolve (.ofForm (.string path))) := by
    refine (uniform_alikeWith False).resolve writable_true.toReadable
      ⟨trivial, trivial, fun _ => trivial⟩ ?_ hlocated
    rintro form ⟨t, ht, rfl⟩
    exact .of_ended (exists_evaluate_text hreg ht env)
  exact hends.exists_ended s

theorem untouched_resolve {s : State} {o : Outcome Location}
    (ho : (reg.scope (·.evaluate depth) env).resolve (.ofForm (.string path)) s = .ended o) :
    s.Untouched o.state := by
  have hlocated : Located (fun form => ∃ text, form = .string text) (.ofForm (.string path)) :=
    located_of_texts (fun text => ⟨text, rfl⟩) ⟨_, rfl⟩
  have hkeeps : Keeps s.Untouched (fun _ => True) Location (Location.Within fun _ => True)
      ((reg.scope (·.evaluate depth) env).resolve (.ofForm (.string path)))
      ((reg.scope (·.evaluate depth) env).resolve (.ofForm (.string path))) := by
    refine (uniform_keeps _ fun _ _ => trivial).resolve (readable_untouched s)
      ⟨trivial, trivial, fun _ => trivial⟩ ?_ hlocated
    rintro form ⟨text, rfl⟩
    exact untouched_text hreg s depth env text
  exact (hkeeps s o (.refl s) ho).1

end Resolve

/-! ## What one `set` changes -/

theorem Registry.invoke_set {reg : Registry} (hreg : reg.HasBuiltin) (ev : Registry → Evaluator)
    (env : MapRef) (path form : Operand) :
    reg.invoke ev env "set" [path, form] = Operators.set (reg.scope ev env) [path, form] := by
  have hset := hreg "set" _ operator?_set
  rw [invoke, hset]
  rfl

/-- The value is evaluated first, and then the path. If the path leads to a slot, then the value is
in it afterwards and all other slots are as the evaluation of the value left them; if it leads to
none, or there is an error, then this holds of all slots. -/
theorem set_changes_one_slot (reg : Registry) (hreg : reg.HasBuiltin) (path : String) (form : Json)
    (depth : Nat) (hdepth : path.toList.length ≤ depth) (env : MapRef) (s : State)
    (o : Outcome Value) (ho : reg.evaluate depth env (Operand.ofForm form).raw s = .ended o) :
    ∃ result u, reg.invoke (·.evaluate depth) env "set"
        [.ofForm (.string path), .ofForm form] s = .ended ⟨result, u⟩ ∧
      (∀ e, o.result = .error e → result = .error e ∧ u = o.state) ∧
      ∀ v, o.result = .ok v → ∃ found t,
        (reg.scope (·.evaluate depth) env).resolve (.ofForm (.string path)) o.state =
          .ended ⟨found, t⟩ ∧
        o.state.Untouched t ∧
        (∀ location slot, found = .ok location → location.slot? t.heap = some slot →
          result = .ok .null ∧ u = { t with heap := slot.write t.heap v } ∧
            o.state.UntouchedBut slot u) ∧
        ((∀ location, found = .ok location → location.slot? t.heap = none) → u = t) ∧
        (∀ location, found = .ok location → location.Ignored t.heap →
          result = .ok .null ∧ u = t) ∧
        ∀ e, result = .error e → u = t := by
  rw [Registry.invoke_set hreg]
  obtain ⟨result, w⟩ := o
  cases result with
  | error e =>
    refine ⟨.error e, w, EvalM.bind_of_error ho, ?_, ?_⟩
    · intro e' he
      exact ⟨he, rfl⟩
    · intro v hv
      cases hv
  | ok v =>
    obtain ⟨⟨found, t⟩, hfound⟩ := exists_resolve hreg env hdepth w
    have huntouched := untouched_resolve hreg env hfound
    have hrun : Operators.set (reg.scope (·.evaluate depth) env)
        [.ofForm (.string path), .ofForm form] s =
        ((reg.scope (·.evaluate depth) env).resolve (.ofForm (.string path)) >>= fun location =>
          Operators.writeAt v location >>= fun _ => pure .null) w := EvalM.bind_of_ok ho
    rw [hrun]
    cases found with
    | error e =>
      refine ⟨.error e, t, EvalM.bind_of_error hfound, by simp, ?_⟩
      rintro _ ⟨⟩
      exact ⟨.error e, t, hfound, huntouched, by simp, by simp, by simp, by simp⟩
    | ok location =>
      obtain ⟨result, u, hwrite, hslot, hnone, hignored, herror⟩ := location.exists_write t v
      refine ⟨result, u, (EvalM.bind_of_ok hfound).trans hwrite, by simp, ?_⟩
      rintro _ ⟨⟩
      refine ⟨.ok location, t, hfound, huntouched, ?_, ?_, ?_, herror⟩
      · rintro _ slot ⟨⟩ hsome
        obtain ⟨hresult, rfl⟩ := hslot slot hsome
        exact ⟨hresult, rfl, huntouched.write slot v⟩
      · intro hall
        exact hnone (hall location rfl)
      · rintro _ ⟨⟩
        exact hignored

namespace Shared

/-- One list under two names. -/
def start : State :=
  { heap :=
    { lists := #[[.int 5, .int 7]]
      maps := #[.ofList [("xs", .list ⟨0⟩), ("ys", .list ⟨0⟩), ("i", .int 1)]] } }

def form : Json := .array [.int 8]

/-- The state after the form has made its list. -/
def grown : State :=
  { start with heap := { start.heap with lists := #[[.int 5, .int 7], [.int 8]] } }

def write (path : String) : EvalM Value :=
  Registry.builtin.invoke (·.evaluate 10) ⟨0⟩ "set"
    [.ofForm (.string path), .ofForm form]

def find (path : String) : EvalM Location :=
  (Registry.builtin.scope (·.evaluate 10) ⟨0⟩).resolve (.ofForm (.string path))

theorem found_eq_ok {path : String} {found : Except EvalError Location} {t : State}
    {location : Location} (h : find path grown = .ended ⟨found, t⟩)
    (hfind : (find path grown).outcome?.map (·.result.toOption) = some (some location)) :
    found = .ok location := by
  rw [h] at hfind
  exact Outcome.result_eq_ok (o := ⟨found, t⟩) (Option.some.inj hfind)

theorem list_of_untouched {t : State} (h : grown.Untouched t) :
    t.heap.list ⟨0⟩ = [.int 5, .int 7] :=
  h.heap.list (by decide)

theorem set_changes_one_slot_shared :
    (∃ u, write "$.ys[$.i]" start = .ended ⟨.ok .null, u⟩ ∧
      grown.UntouchedBut (.element ⟨0⟩ 1) u ∧
      Slot.read u.heap (.element ⟨0⟩ 1) = some (.list ⟨1⟩)) ∧
    (∃ u, write "$.xs[2]" start = .ended ⟨.ok .null, u⟩ ∧ grown.Untouched u) ∧
      ∃ e u, write "$.xs.first" start = .ended ⟨.error e, u⟩ ∧ grown.Untouched u := by
  have hform : Registry.builtin.evaluate 10 ⟨0⟩ (Operand.ofForm form).raw start =
      .ended ⟨.ok (.list ⟨1⟩), grown⟩ := rfl
  have hset (path : String) (hpath : path.toList.length ≤ 10) :=
    set_changes_one_slot .builtin (fun _ _ h => h) path form 10 hpath ⟨0⟩ start _ hform
  refine ⟨?_, ?_, ?_⟩
  · have hfind : (find "$.ys[$.i]" grown).outcome?.map (·.result.toOption) =
        some (some (.slot (.int 1) (.list ⟨0⟩))) := by decide +kernel
    obtain ⟨result, u, hrun, -, hok⟩ := hset "$.ys[$.i]" (by decide)
    obtain ⟨found, t, hfound, huntouched, hslot, -⟩ := hok _ rfl
    obtain rfl := found_eq_ok hfound hfind
    have hlist := list_of_untouched huntouched
    have hsome : Location.slot? t.heap (.slot (.int 1) (.list ⟨0⟩)) = some (.element ⟨0⟩ 1) := by
      rw [Location.slot?, if_neg (by decide), Value.slotOf?, hlist]
      rfl
    have hin : Slot.InHeap t.heap (.element ⟨0⟩ 1) := by
      rw [Slot.InHeap, hlist]
      decide
    obtain ⟨rfl, rfl, hbut⟩ := hslot _ _ rfl hsome
    exact ⟨_, hrun, hbut, Slot.read_write_self hin _⟩
  · have hfind : (find "$.xs[2]" grown).outcome?.map (·.result.toOption) =
        some (some (.slot (.string "2") (.list ⟨0⟩))) := by decide +kernel
    obtain ⟨result, u, hrun, -, hok⟩ := hset "$.xs[2]" (by decide)
    obtain ⟨found, t, hfound, huntouched, -, -, hignored, -⟩ := hok _ rfl
    obtain rfl := found_eq_ok hfound hfind
    have hlist := list_of_untouched huntouched
    obtain ⟨rfl, rfl⟩ := hignored _ rfl (.beyond (i := 2) rfl (by simp [hlist]))
    exact ⟨_, hrun, huntouched⟩
  · have hfails : (write "$.xs.first" start).outcome?.map Outcome.result =
        some (.error (.typeMismatch (.listIndex "string"))) := rfl
    obtain ⟨result, u, hrun, -, hok⟩ := hset "$.xs.first" (by decide)
    obtain ⟨found, t, -, huntouched, -, -, -, herror⟩ := hok _ rfl
    obtain rfl : result = .error (.typeMismatch (.listIndex "string")) := by
      rw [write, hrun] at hfails
      exact Option.some.inj hfails
    exact ⟨_, u, hrun, herror _ rfl ▸ huntouched⟩

end Shared

end Sigil
