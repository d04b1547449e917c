import Mathlib.Logic.Relation
import Sigil.Proofs.StepUniformity

/-!
# What an evaluation can write

References cannot be forged: an evaluation gets them from its environment, from the values that the
embedder bound and from what it allocates, and follows what these hold. A program sees the contents
of containers and functions (`Heap.Contains`). The embedder's functions and objects hand out more,
and a function of a program brings in the registry under which it was made (`Heap.Holds`). The
values that an evaluation can get at form a region that is closed under holding, and it writes
containers of that region only (`Confined`). So all other containers keep their contents
(`evaluate_frame`).
-/

namespace Sigil

/-! ## Reachability -/

def Value.isContainer : Value → Bool
  | .list _ | .map _ => true
  | _ => false

/-- The reference leads out of the heap, to what may be allocated there later. -/
def Value.IsNew (h : Heap) : Value → Prop
  | .list r => h.lists.size ≤ r.index
  | .map r => h.maps.size ≤ r.index
  | .closure r => h.closures.size ≤ r.index
  | .native r => h.natives.size ≤ r.index
  | .host r => h.functions.size ≤ r.index
  | _ => False

/-- The object of the embedder behind a native object. -/
def Native.object? : Native → Option EmbeddedObject
  | .embedded o => some o
  | _ => none

namespace Heap

/-- What a program sees in a value: a container has its elements or field values, and a function of
a program its environment and fixed values. -/
inductive Contains (h : Heap) : Value → Value → Prop where
  | element {r : ListRef} {x : Value} : x ∈ h.list r → Contains h (.list r) x
  | field {r : MapRef} {e : String × Value} : e ∈ (h.map r).entries → Contains h (.map r) e.2
  | env {r : ClosureRef} : Contains h (.closure r) (.map (h.closure r).env)
  | fixed {r : ClosureRef} {e : String × Value} :
    e ∈ (h.closure r).fixed → Contains h (.closure r) e.2

/-- The value is the function number `n` of the embedder, or an object with it as a member. -/
inductive Supplies (h : Heap) (n : Nat) : Value → Prop where
  | function {r : HostRef} : (h.function r).action = .embedded n → Supplies h n (.host r)
  | member {r : NativeRef} {o : EmbeddedObject} {name : String} {f : HostFunction} :
    (h.native r).object? = some o → o.member? name = some (.function f) → f.action = .embedded n →
    Supplies h n (.native r)

/-- What an evaluation can get from a value. Beside what it contains, a function of a program brings
in the values of its registry, the function number `n` of the embedder the values `held n`, and an
object of the embedder its members. -/
inductive Holds (h : Heap) (reg : Registry) (held : Nat → Value → Prop) : Value → Value → Prop where
  | contains {v x : Value} : h.Contains v x → Holds h reg held v x
  | registry {r : ClosureRef} {c : Closure} {name : String} {x : Value} :
    h.closures[r.index]? = some c → (reg.select c.registry).values.get? name = some x →
    Holds h reg held (.closure r) x
  | embedded {v : Value} {n : Nat} {x : Value} :
    h.Supplies n v → held n x → Holds h reg held v x
  | member {r : NativeRef} {o : EmbeddedObject} {name : String} {x : Value} :
    (h.native r).object? = some o → o.member? name = some (.held x) → Holds h reg held (.native r) x

def Reaches (h : Heap) (reg : Registry) (held : Nat → Value → Prop) : Value → Value → Prop :=
  Relation.ReflTransGen (h.Holds reg held)

/-- What the value refers to is the same in both heaps. Timers may run and be stopped. -/
def Agrees (h h' : Heap) : Value → Prop
  | .list r => h'.list r = h.list r
  | .map r => h'.map r = h.map r
  | .closure r => h'.closures[r.index]? = h.closures[r.index]? ∧ h'.closure r = h.closure r
  | .native r => (h'.native r).object? = (h.native r).object?
  | .host r => h'.function r = h.function r
  | _ => True

/-- The native objects of the first heap are in the second, those of the embedder as they were. -/
structure KeepsObjects (h h' : Heap) : Prop where
  size_le : h.natives.size ≤ h'.natives.size
  object? {r : NativeRef} :
    r.index < h.natives.size → (h'.native r).object? = (h.native r).object?

variable {h h' h'' : Heap} {reg : Registry} {held : Nat → Value → Prop} {v x : Value}

theorem keepsObjects_of_eq (hn : h'.natives = h.natives) : h.KeepsObjects h' :=
  ⟨Nat.le_of_eq (by rw [hn]), fun _ => by simp [native, hn]⟩

theorem keepsObjects_newNative (h : Heap) (n : Native) : h.KeepsObjects (h.newNative n).2 where
  size_le := by simp [newNative]
  object? hr := by simp [newNative, native, Array.getElem?_push_lt, hr]

theorem not_holds_of_isPlain (hv : v.isPlain = true) : ¬ h.Holds reg held v x := by
  intro hx
  cases hx with
  | contains hx => cases hx <;> simp [Value.isPlain] at hv
  | embedded hn _ => cases hn <;> simp [Value.isPlain] at hv
  | registry | member => simp [Value.isPlain] at hv

theorem object?_of_le {r : NativeRef} (hr : h.natives.size ≤ r.index) :
    (h.native r).object? = some { kind := "" } := by
  simp [native, Array.getD_eq_getD_getElem?, Array.getElem?_eq_none hr, default, Native.object?]

/-- A reference that leads out of the heap leads no further in it. -/
theorem isNew_of_contains (hv : v.IsNew h) (hx : h.Contains v x) : x.IsNew h := by
  cases hx with
  | element hmem => simp [list, Array.getD_eq_getD_getElem?, Array.getElem?_eq_none hv] at hmem
  | field hmem =>
    simp [map, Array.getD_eq_getD_getElem?, Array.getElem?_eq_none hv, Fields.empty] at hmem
  | env => simp [closure, Array.getD_eq_getD_getElem?, Array.getElem?_eq_none hv, Value.IsNew]
  | fixed hmem => simp [closure, Array.getD_eq_getD_getElem?, Array.getElem?_eq_none hv] at hmem

theorem not_supplies_of_isNew (hv : v.IsNew h) (n : Nat) : ¬ h.Supplies n v := by
  intro hn
  cases hn with
  | function haction =>
    simp only [function, Array.getD_eq_getD_getElem?, Array.getElem?_eq_none hv] at haction
    cases haction
  | member ho hm =>
    obtain rfl := Option.some.inj ((object?_of_le hv).symm.trans ho)
    cases hm

theorem isNew_of_holds (hv : v.IsNew h) (hx : h.Holds reg held v x) : x.IsNew h := by
  cases hx with
  | contains hx => exact isNew_of_contains hv hx
  | registry hc _ => simp [Array.getElem?_eq_none hv] at hc
  | embedded hn _ => exact absurd hn (not_supplies_of_isNew hv _)
  | member ho hm =>
    obtain rfl := Option.some.inj ((object?_of_le hv).symm.trans ho)
    cases hm

theorem Holds.mem_list {r : ListRef} (hx : h.Holds reg held (.list r) x) : x ∈ h.list r := by
  cases hx with
  | contains hx =>
    cases hx with
    | element hmem => exact hmem
  | embedded hn _ => cases hn

theorem Holds.mem_map {r : MapRef} (hx : h.Holds reg held (.map r) x) :
    ∃ e ∈ (h.map r).entries, e.2 = x := by
  cases hx with
  | contains hx =>
    cases hx with
    | field hmem => exact ⟨_, hmem, rfl⟩
  | embedded hn _ => cases hn

theorem Agrees.refl (h : Heap) (v : Value) : h.Agrees h v := by
  cases v with
  | closure => exact ⟨rfl, rfl⟩
  | list | map | native | host => rfl
  | _ => trivial

theorem Reaches.closed {S : Value → Prop} (hS : ∀ v x, S v → h.Holds reg held v x → S x) {a : Value}
    (hv : h.Reaches reg held a v) (ha : S a) : S v := by
  induction hv with
  | refl => exact ha
  | tail _ hstep ih => exact hS _ _ ih hstep

theorem Agrees.symm (ha : h.Agrees h' v) : h'.Agrees h v := by
  cases v with
  | closure => exact ⟨ha.1.symm, ha.2.symm⟩
  | list | map | native | host => exact Eq.symm ha
  | _ => trivial

theorem Agrees.trans (ha : h.Agrees h' v) (ha' : h'.Agrees h'' v) : h.Agrees h'' v := by
  cases v with
  | closure => exact ⟨ha'.1.trans ha.1, ha'.2.trans ha.2⟩
  | list | map | native | host => exact Eq.trans ha' ha
  | _ => trivial

theorem Agrees.contains (ha : h.Agrees h' v) (hx : h'.Contains v x) : h.Contains v x := by
  cases hx with
  | element hmem => exact .element (ha ▸ hmem)
  | field hmem => exact .field (ha ▸ hmem)
  | env =>
    rw [ha.2]
    exact .env
  | fixed hmem => exact .fixed (ha.2 ▸ hmem)

theorem Agrees.supplies (ha : h.Agrees h' v) {n : Nat} (hn : h'.Supplies n v) : h.Supplies n v := by
  cases hn with
  | function haction => exact .function (ha ▸ haction)
  | member ho hm haction => exact .member (ha ▸ ho) hm haction

theorem Agrees.holds (ha : h.Agrees h' v) (hx : h'.Holds reg held v x) : h.Holds reg held v x := by
  cases hx with
  | contains hx => exact .contains (ha.contains hx)
  | registry hc hx => exact .registry (ha.1 ▸ hc) hx
  | embedded hn hheld => exact .embedded (ha.supplies hn) hheld
  | member ho hm => exact .member (ha ▸ ho) hm

theorem Extends.agrees (e : h.Extends h') (ho : h.KeepsObjects h') (hv : ¬ v.IsNew h) :
    h.Agrees h' v := by
  cases v with
  | list r => exact e.list (Nat.lt_of_not_le hv)
  | map r => exact e.map (Nat.lt_of_not_le hv)
  | closure r =>
    exact ⟨getElem?_of_isPrefix e.closures (Nat.lt_of_not_le hv), e.closure (Nat.lt_of_not_le hv)⟩
  | native r => exact ho.object? (Nat.lt_of_not_le hv)
  | host r => exact e.function (Nat.lt_of_not_le hv)
  | _ => trivial

theorem Extends.isNew_of_isContainer (e : h.Extends h') (hv : v.isContainer = true)
    (hnew : v.IsNew h') : v.IsNew h := by
  cases v with
  | list r => exact Nat.le_trans e.lists.length_le hnew
  | map r => exact Nat.le_trans e.maps.length_le hnew
  | _ => cases hv

theorem Extends.isNew (e : h.Extends h') (ho : h.KeepsObjects h') (hv : v.IsNew h') :
    v.IsNew h := by
  cases v with
  | list | map => exact e.isNew_of_isContainer rfl hv
  | closure r => exact Nat.le_trans e.closures.length_le hv
  | native r => exact Nat.le_trans ho.size_le hv
  | host r => exact Nat.le_trans e.functions.length_le hv
  | _ => exact hv

/-- What a reader of the heap who starts from `roots` may come to hold, without writing. -/
def Accessible (h : Heap) (reg : Registry) (held : Nat → Value → Prop) (roots : Value → Prop)
    (v : Value) : Prop :=
  v.isPlain = true ∨ v.IsNew h ∨ ∃ a, roots a ∧ h.Reaches reg held a v

/-! ## Allocating and writing -/

theorem eq_of_isNew_newList {xs : List Value} (hv : v.IsNew h) (hv' : ¬ v.IsNew (h.newList xs).2) :
    v = .list (h.newList xs).1 := by
  cases v with
  | list r =>
    simp only [Value.IsNew, newList, Array.size_push] at hv hv'
    rw [newList, ← Nat.le_antisymm (by omega) hv]
  | _ => exact absurd hv hv'

theorem eq_of_isNew_newMap {fields : Fields Value} (hv : v.IsNew h)
    (hv' : ¬ v.IsNew (h.newMap fields).2) : v = .map (h.newMap fields).1 := by
  cases v with
  | map r =>
    simp only [Value.IsNew, newMap, Array.size_push] at hv hv'
    rw [newMap, ← Nat.le_antisymm (by omega) hv]
  | _ => exact absurd hv hv'

theorem eq_of_isNew_newClosure {c : Closure} (hv : v.IsNew h)
    (hv' : ¬ v.IsNew (h.newClosure c).2) : v = .closure (h.newClosure c).1 := by
  cases v with
  | closure r =>
    simp only [Value.IsNew, newClosure, Array.size_push] at hv hv'
    rw [newClosure, ← Nat.le_antisymm (by omega) hv]
  | _ => exact absurd hv hv'

theorem eq_of_isNew_newNative {n : Native} (hv : v.IsNew h) (hv' : ¬ v.IsNew (h.newNative n).2) :
    v = .native (h.newNative n).1 := by
  cases v with
  | native r =>
    simp only [Value.IsNew, newNative, Array.size_push] at hv hv'
    rw [newNative, ← Nat.le_antisymm (by omega) hv]
  | _ => exact absurd hv hv'

theorem eq_of_isNew_newFunction {f : HostFunction} (hv : v.IsNew h)
    (hv' : ¬ v.IsNew (h.newFunction f).2) : v = .host (h.newFunction f).1 := by
  cases v with
  | host r =>
    simp only [Value.IsNew, newFunction, Array.size_push] at hv hv'
    rw [newFunction, ← Nat.le_antisymm (by omega) hv]
  | _ => exact absurd hv hv'

theorem list_newList (h : Heap) (xs : List Value) :
    (h.newList xs).2.list (h.newList xs).1 = xs := by
  simp [newList, list]

theorem map_newMap (h : Heap) (fields : Fields Value) :
    (h.newMap fields).2.map (h.newMap fields).1 = fields := by
  simp [newMap, map]

theorem closure_newClosure (h : Heap) (c : Closure) :
    (h.newClosure c).2.closure (h.newClosure c).1 = c := by
  simp [newClosure, closure]

theorem native_newNative (h : Heap) (n : Native) :
    (h.newNative n).2.native (h.newNative n).1 = n := by
  simp [newNative, native]

theorem function_newFunction (h : Heap) (f : HostFunction) :
    (h.newFunction f).2.function (h.newFunction f).1 = f := by
  simp [newFunction, function]

theorem not_supplies_newTimer (h : Heap) (t : Timer) (n : Nat) :
    ¬ (h.newNative (.timer t)).2.Supplies n (.native (h.newNative (.timer t)).1) := by
  intro hn
  cases hn with
  | member ho _ _ =>
    rw [native_newNative] at ho
    cases ho

theorem supplies_newFunction (h : Heap) {f : HostFunction} {n : Nat} :
    (h.newFunction f).2.Supplies n (.host (h.newFunction f).1) ↔ f.action = .embedded n := by
  constructor
  · intro hn
    cases hn with
    | function haction => rwa [function_newFunction] at haction
  · exact fun haction => .function (by rwa [function_newFunction])

/-- The functions of the embedder that native objects have as members belong to its own objects. -/
theorem supplies_of_member {r : NativeRef} {name : String} {f : HostFunction}
    (hm : (h.native r).member? r name = some (.function f)) {n : Nat}
    (hf : f.action = .embedded n) : h.Supplies n (.native r) := by
  cases hn : h.native r with
  | embedded o =>
    rw [hn] at hm
    exact .member (by rw [hn]; rfl) hm hf
  | timer | insertResult | replaceResult =>
    rw [hn] at hm
    simp only [Native.member?, Option.ite_none_right_eq_some] at hm
    grind

theorem agrees_setList {r : ListRef} (hv : v ≠ .list r) (xs : List Value) :
    h.Agrees (h.setList r xs) v := by
  cases v with
  | list r' =>
    have hne : r.index ≠ r'.index := fun heq => hv (by cases r; cases r'; cases heq; rfl)
    simp [Agrees, setList, list, Array.getD_eq_getD_getElem?, hne]
  | closure => exact ⟨rfl, rfl⟩
  | map | native | host => rfl
  | _ => trivial

theorem agrees_setMap {r : MapRef} (hv : v ≠ .map r) (fields : Fields Value) :
    h.Agrees (h.setMap r fields) v := by
  cases v with
  | map r' =>
    have hne : r.index ≠ r'.index := fun heq => hv (by cases r; cases r'; cases heq; rfl)
    simp [Agrees, setMap, map, Array.getD_eq_getD_getElem?, hne]
  | closure r' => simp [Agrees, setMap, closure]
  | list | native | host => rfl
  | _ => trivial

theorem object?_cancel (h : Heap) (timer r : NativeRef) :
    ((h.cancel timer).native r).object? = (h.native r).object? := by
  unfold cancel
  split
  case h_2 => rfl
  case h_1 t ht =>
    by_cases hr : timer.index = r.index
    · by_cases hin : timer.index < h.natives.size
      · obtain rfl : timer = r := by cases timer; cases r; cases hr; rfl
        have hnative : (h.setNative timer (.timer t.cancel)).native timer = .timer t.cancel := by
          simp [setNative, native, Array.getD_eq_getD_getElem?, hin]
        rw [hnative, ht]
        rfl
      · simp [setNative, Array.setIfInBounds, hin]
    · simp [setNative, native, Array.getD_eq_getD_getElem?, hr]

theorem agrees_cancel (h : Heap) (timer : NativeRef) (v : Value) : h.Agrees (h.cancel timer) v := by
  cases v with
  | native r => exact h.object?_cancel timer r
  | list | map | host =>
    unfold cancel
    split <;> rfl
  | closure =>
    unfold cancel
    split <;> exact ⟨rfl, rfl⟩
  | _ => trivial

theorem mem_list_setList {r : ListRef} {xs : List Value} (hx : x ∈ (h.setList r xs).list r) :
    x ∈ xs := by
  by_cases hr : r.index < h.lists.size
  · simpa [setList, list, Array.getD_eq_getD_getElem?, hr] using hx
  · simp [setList, list, Array.getD_eq_getD_getElem?, hr] at hx

theorem mem_map_setMap {r : MapRef} {fields : Fields Value} {e : String × Value}
    (he : e ∈ ((h.setMap r fields).map r).entries) : e ∈ fields.entries := by
  by_cases hr : r.index < h.maps.size
  · simpa [setMap, map, Array.getD_eq_getD_getElem?, hr] using he
  · simp [setMap, map, Array.getD_eq_getD_getElem?, hr, Fields.empty] at he

end Heap

/-! ## Regions -/

/-- An evaluation that started with the heap `h₀` and has come to `h` keeps to the region `A`: all
it can get at is in the region, and it has written containers of the region only. -/
structure Confined (reg : Registry) (held : Nat → Value → Prop) (A : Value → Prop)
    (h₀ h : Heap) : Prop where
  plain {v : Value} : v.isPlain = true → A v
  new {v : Value} : v.IsNew h₀ → A v
  grows {v : Value} : v.IsNew h → v.IsNew h₀
  closed {v x : Value} : A v → h.Holds reg held v x → A x
  kept {v : Value} : ¬ v.IsNew h₀ → ¬ (v.isContainer = true ∧ A v) → h₀.Agrees h v

theorem confined_accessible (h : Heap) (reg : Registry) (held : Nat → Value → Prop)
    (roots : Value → Prop) : Confined reg held (h.Accessible reg held roots) h h where
  plain := .inl
  new hv := .inr (.inl hv)
  grows hv := hv
  closed {v x} hv hx := by
    rcases hv with hplain | hnew | ⟨a, ha, hreach⟩
    · exact absurd hx (Heap.not_holds_of_isPlain hplain)
    · exact .inr (.inl (Heap.isNew_of_holds hnew hx))
    · exact .inr (.inr ⟨a, ha, hreach.tail hx⟩)
  kept {v} _ _ := .refl h v

namespace Confined

variable {reg : Registry} {held : Nat → Value → Prop} {A roots : Value → Prop} {h₀ h h' : Heap}
  {v x : Value} (hc : Confined reg held A h₀ h)

include hc

theorem accessible (hroots : ∀ a, roots a → A a) (hx : h.Accessible reg held roots x) : A x := by
  rcases hx with hplain | hnew | ⟨a, ha, hreach⟩
  · exact hc.plain hplain
  · exact hc.new (hc.grows hnew)
  · exact hreach.closed (fun _ _ => hc.closed) (hroots a ha)

/-- A step on the heap stays in the region if it changes only what is new and containers of the
region, and these hold values of the region afterwards. -/
theorem update (hgrows : ∀ v : Value, v.IsNew h' → v.IsNew h)
    (hstep : ∀ v, h.Agrees h' v ∨ (v.IsNew h ∨ v.isContainer = true ∧ A v) ∧
      ∀ x, h'.Holds reg held v x → A x) : Confined reg held A h₀ h' where
  plain := hc.plain
  new := hc.new
  grows hv := hc.grows (hgrows _ hv)
  closed {v x} hv hx := by
    rcases hstep v with hagree | ⟨-, hholds⟩
    · exact hc.closed hv (hagree.holds hx)
    · exact hholds x hx
  kept {v} hold hout := by
    rcases hstep v with hagree | ⟨hnew | hin, -⟩
    · exact (hc.kept hold hout).trans hagree
    · exact absurd (hc.grows hnew) hold
    · exact absurd hin hout

theorem allocate (e : h.Extends h') (ho : h.KeepsObjects h')
    (hnew : ∀ v x, v.IsNew h → ¬ v.IsNew h' → h'.Holds reg held v x → A x) :
    Confined reg held A h₀ h' := by
  refine hc.update (fun v => e.isNew ho) fun v => ?_
  by_cases hv : v.IsNew h
  · refine .inr ⟨.inl hv, fun x hx => ?_⟩
    -- What is still new holds nothing in the heap; the rest has just been allocated.
    by_cases hv' : v.IsNew h'
    · exact hc.new (hc.grows (e.isNew ho (Heap.isNew_of_holds hv' hx)))
    · exact hnew v x hv hv' hx
  · exact .inl (e.agrees ho hv)

theorem newList {xs : List Value} (hxs : ∀ x ∈ xs, A x) :
    Confined reg held A h₀ (h.newList xs).2 := by
  refine hc.allocate (h.extends_newList xs) (Heap.keepsObjects_of_eq rfl) fun v x hv hv' hx => ?_
  obtain rfl := Heap.eq_of_isNew_newList hv hv'
  exact hxs x (h.list_newList xs ▸ hx.mem_list)

theorem newMap {fields : Fields Value} (hfields : ∀ e ∈ fields.entries, A e.2) :
    Confined reg held A h₀ (h.newMap fields).2 := by
  refine hc.allocate (h.extends_newMap fields) (Heap.keepsObjects_of_eq rfl) fun v x hv hv' hx => ?_
  obtain rfl := Heap.eq_of_isNew_newMap hv hv'
  obtain ⟨e, he, rfl⟩ := hx.mem_map
  exact hfields e (h.map_newMap fields ▸ he)

theorem newClosure {c : Closure} (henv : A (.map c.env))
    (hregistry : ∀ name x, (reg.select c.registry).values.get? name = some x → A x)
    (hfixed : ∀ e ∈ c.fixed, A e.2) : Confined reg held A h₀ (h.newClosure c).2 := by
  refine hc.allocate (h.extends_newClosure c) (Heap.keepsObjects_of_eq rfl) fun v x hv hv' hx => ?_
  obtain rfl := Heap.eq_of_isNew_newClosure hv hv'
  cases hx with
  | contains hx =>
    cases hx with
    | env => rwa [h.closure_newClosure]
    | fixed hmem => exact hfixed _ (h.closure_newClosure c ▸ hmem)
  | registry hclosure hx =>
    obtain rfl : c = _ := by simpa [Heap.newClosure] using hclosure
    exact hregistry _ x hx
  | embedded hn _ => cases hn

/-- A new native object of the program's own has no members with something behind them. -/
theorem newTimer (t : Timer) : Confined reg held A h₀ (h.newNative (.timer t)).2 := by
  refine hc.allocate (h.extends_newNative _) (h.keepsObjects_newNative _) fun v x hv hv' hx => ?_
  obtain rfl := Heap.eq_of_isNew_newNative hv hv'
  cases hx with
  | contains hx => cases hx
  | embedded hn _ => exact absurd hn (h.not_supplies_newTimer t _)
  | member ho _ =>
    rw [h.native_newNative] at ho
    cases ho

theorem newFunction {f : HostFunction} (hf : ∀ n x, f.action = .embedded n → held n x → A x) :
    Confined reg held A h₀ (h.newFunction f).2 := by
  refine hc.allocate (h.extends_newFunction _) (Heap.keepsObjects_of_eq rfl) fun v x hv hv' hx => ?_
  obtain rfl := Heap.eq_of_isNew_newFunction hv hv'
  cases hx with
  | contains hx => cases hx
  | embedded hn hheld => exact hf _ x (h.supplies_newFunction.1 hn) hheld

theorem setList {r : ListRef} {xs : List Value} (hr : A (.list r)) (hxs : ∀ x ∈ xs, A x) :
    Confined reg held A h₀ (h.setList r xs) := by
  refine hc.update (fun v => ?_) fun v => ?_
  · cases v <;> simp [Value.IsNew, Heap.setList]
  · by_cases hv : v = .list r
    · subst hv
      exact .inr ⟨.inr ⟨rfl, hr⟩, fun x hx => hxs x (Heap.mem_list_setList hx.mem_list)⟩
    · exact .inl (Heap.agrees_setList hv xs)

theorem setMap {r : MapRef} {fields : Fields Value} (hr : A (.map r))
    (hfields : ∀ e ∈ fields.entries, A e.2) : Confined reg held A h₀ (h.setMap r fields) := by
  refine hc.update (fun v => ?_) fun v => ?_
  · cases v <;> simp [Value.IsNew, Heap.setMap]
  · by_cases hv : v = .map r
    · subst hv
      refine .inr ⟨.inr ⟨rfl, hr⟩, fun x hx => ?_⟩
      obtain ⟨e, he, rfl⟩ := hx.mem_map
      exact hfields e (Heap.mem_map_setMap he)
    · exact .inl (Heap.agrees_setMap hv fields)

theorem cancel (timer : NativeRef) : Confined reg held A h₀ (h.cancel timer) := by
  refine hc.update (fun v hv => ?_) fun v => .inl (h.agrees_cancel timer v)
  unfold Heap.cancel at hv
  split at hv
  · cases v <;> simp_all [Value.IsNew, Heap.setNative]
  · exact hv

/-- What a native object holds is in the region with it. -/
theorem held_mem {r : NativeRef} {name : String} (hr : A (.native r))
    (hm : (h.native r).member? r name = some (.held x)) : A x := by
  cases hn : h.native r with
  | embedded o =>
    rw [hn] at hm
    exact hc.closed hr (.member (by rw [hn]; rfl) hm)
  | timer | insertResult | replaceResult =>
    rw [hn] at hm
    simp only [Native.member?, Option.ite_none_right_eq_some] at hm
    grind [hc.plain, Value.isPlain]

theorem newMember {r : NativeRef} {name : String} {f : HostFunction} (hr : A (.native r))
    (hm : (h.native r).member? r name = some (.function f)) :
    Confined reg held A h₀ (h.newFunction f).2 := by
  refine hc.newFunction fun n x haction hheld => ?_
  exact hc.closed hr (.embedded (Heap.supplies_of_member hm haction) hheld)

end Confined

/-- The values that a registry binds are in the region. -/
def Registry.BindsIn (reg : Registry) (A : Value → Prop) (r : RegistryRef) : Prop :=
  ∀ name x, (reg.select r).values.get? name = some x → A x

theorem writable_confined (reg : Registry) (held : Nat → Value → Prop) (A : Value → Prop)
    (h₀ : Heap) (hplain : ∀ v : Value, v.isPlain = true → A v) :
    Writable (fun s => Confined reg held A h₀ s.heap) A (reg.BindsIn A) where
  plain := hplain _
  element hs hr hx := hs.closed hr (.contains (.element hx))
  field hs hr he := hs.closed hr (.contains (.field he))
  newList hs hxs := ⟨hs.newList hxs, hs.new (hs.grows (Nat.le_refl _))⟩
  newMap hs hfields := ⟨hs.newMap hfields, hs.new (hs.grows (Nat.le_refl _))⟩
  newClosure hs henv hregistry hfixed :=
    ⟨hs.newClosure henv hregistry hfixed, hs.new (hs.grows (Nat.le_refl _))⟩
  held hs hr hm := hs.held_mem hr hm
  newFunction hs hr hm := ⟨hs.newMember hr hm, hs.new (hs.grows (Nat.le_refl _))⟩
  setList hs hr hxs := hs.setList hr hxs
  setMap hs hr hfields := hs.setMap hr hfields
  newTimer t hs := ⟨hs.newTimer t, hs.new (hs.grows (Nat.le_refl _))⟩
  cancel timer hs := hs.cancel timer
  sameHeap hs heq := heq ▸ hs
  captured {s r} hs hr := by
    refine ⟨hs.closed hr (.contains .env), ?_, fun _ he => hs.closed hr (.contains (.fixed he))⟩
    cases hc : s.heap.closures[r.index]? with
    | some c =>
      have hclosure : s.heap.closure r = c := by simp [Heap.closure, hc]
      exact .inl fun name x hx => hs.closed hr (.registry hc (hclosure ▸ hx))
    | none => exact .inr (by simp [Heap.closure, hc])

/-! ## Evaluation -/

namespace Registry

/-- The functions of the embedder, which hold the values `held`, only allocate. What they return and
what they allocate leads only to what is new, what their arguments lead to and what they hold. -/
def OnlyAllocates (reg : Registry) (held : Nat → Value → Prop) : Prop :=
  ∀ (n : Nat) (f : List Value → EvalM Value), reg.functions[n]? = some f →
    ∀ (vs : List Value) (s : State) (o : Outcome Value), f vs s = .ended o →
      s.heap.Extends o.state.heap ∧ s.heap.KeepsObjects o.state.heap ∧
        (∀ v, o.result = .ok v → s.heap.Accessible reg held (fun a => a ∈ vs ∨ held n a) v) ∧
        ∀ v x : Value, v.IsNew s.heap → o.state.heap.Holds reg held v x →
          s.heap.Accessible reg held (fun a => a ∈ vs ∨ held n a) x

variable {reg : Registry} {held : Nat → Value → Prop} {A : Value → Prop} {h₀ : Heap}

theorem OnlyAllocates.keeps (hhost : reg.OnlyAllocates held) {n : Nat}
    {f : List Value → EvalM Value} (hf : reg.functions[n]? = some f) {vs : List Value}
    (hvs : ∀ v ∈ vs, A v) (hheld : ∀ x, held n x → A x) :
    Keeps (fun s => Confined reg held A h₀ s.heap) (fun _ => True) Value A (f vs) (f vs) := by
  intro s o hs h
  obtain ⟨hextends, hobjects, hresult, hholds⟩ := hhost n f hf vs s o h
  have hroots (a : Value) (ha : a ∈ vs ∨ held n a) : A a := ha.elim (hvs a) (hheld a)
  refine ⟨hs.allocate hextends hobjects fun v x hv _ hx => ?_, ?_⟩
  · exact hs.accessible hroots (hholds v x hv hx)
  · cases hv : o.result with
    | ok v => exact hs.accessible hroots (hresult v hv)
    | error e => trivial

end Registry

namespace Listing

/-- The embedder binds `pair` to a function that makes a list of its arguments and holds nothing. -/
def registry : Registry :=
  { Registry.only (Bindings.builtin.bindValue "pair" (.host ⟨0⟩)) with
    functions := [EvalM.newList] }

/-- Two environments with a list each. -/
def start : State :=
  { heap := { lists := #[[.int 1], [.int 2]]
              maps := #[.ofList [("xs", .list ⟨0⟩)], .ofList [("xs", .list ⟨1⟩)]]
              functions := #[⟨"pair", .embedded 0⟩] } }

/-- Writes a new list to the list of the environment. -/
def form : Json :=
  .object [("$.xs[0]", .object [("do", .array [.string "pair", .int 5, .string "$.xs"])])]

end Listing

/-! ## What a program does not see -/

namespace Unseen

/-- The first registry binds a list, a function and an object of the embedder, and a function of a
program, which was made under the second registry. That one binds a list too. -/
def registry : Registry where
  bindings r :=
    if r = ⟨1⟩ then Bindings.builtin.bindValue "other" (.list ⟨3⟩)
    else
      { Bindings.builtin with
        values := .ofList [("shared", .list ⟨0⟩), ("give", .host ⟨0⟩), ("box", .native ⟨0⟩),
          ("remote", .closure ⟨0⟩)] }
  functions := [fun _ => pure (.list ⟨1⟩)]

def box : EmbeddedObject where
  kind := "box"
  member? name := if name = "held" then some (.held (.list ⟨2⟩)) else none

/-- An environment with the list that the first registry binds, and an empty one. -/
def start : State where
  heap :=
    { lists := #[[.int 1], [.int 1], [.int 1], [.int 1]]
      maps := #[.ofList [("xs", .list ⟨0⟩)], .empty]
      closures := #[{ params := [], body := .object [("set", .array [.string "other[0]", .int 5])],
                      fixed := [], env := ⟨1⟩, registry := ⟨1⟩ }]
      natives := #[.embedded box]
      functions := #[⟨"give", .embedded 0⟩] }

end Unseen

end Sigil
