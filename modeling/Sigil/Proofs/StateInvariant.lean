import Mathlib.Tactic.SplitIfs
import Sigil.Eval.Monad

/-!
# Invariants of states and properties of values

An evaluation can keep an invariant `I` of its states only together with a property `V` of the
values that it handles: what it writes, and what it writes to, it has got from somewhere. `Readable`
says that reading and allocating keep such a pair, `Writable` that overwriting containers and
calling functions do so too. Functions also bring in the registries under which they were made; the
property `G` says which these may be. From these steps the larger operations on the heap follow.
-/

namespace Sigil

/-- Neither a container nor a function nor a native object, so that nothing can be reached through
it. -/
def Value.isPlain : Value → Bool
  | .list _ | .map _ | .closure _ | .native _ | .host _ => false
  | _ => true

/-- Reading and allocating keep the invariant `I` and give only values with the property `V`. -/
structure Readable (I : State → Prop) (V : Value → Prop) (G : RegistryRef → Prop) : Prop where
  plain {v : Value} : v.isPlain = true → V v
  element {s : State} {r : ListRef} {x : Value} : I s → V (.list r) → x ∈ s.heap.list r → V x
  field {s : State} {r : MapRef} {e : String × Value} :
    I s → V (.map r) → e ∈ (s.heap.map r).entries → V e.2
  newList {s : State} {xs : List Value} : I s → (∀ x ∈ xs, V x) →
    I { s with heap := (s.heap.newList xs).2 } ∧ V (.list (s.heap.newList xs).1)
  newMap {s : State} {fields : Fields Value} : I s → (∀ e ∈ fields.entries, V e.2) →
    I { s with heap := (s.heap.newMap fields).2 } ∧ V (.map (s.heap.newMap fields).1)
  newClosure {s : State} {c : Closure} : I s → V (.map c.env) → G c.registry →
    (∀ e ∈ c.fixed, V e.2) →
    I { s with heap := (s.heap.newClosure c).2 } ∧ V (.closure (s.heap.newClosure c).1)
  /-- A native object hands out the values that it holds. -/
  held {s : State} {r : NativeRef} {name : String} {x : Value} : I s → V (.native r) →
    (s.heap.native r).member? r name = some (.held x) → V x
  /-- A native object hands out new functions. -/
  newFunction {s : State} {r : NativeRef} {name : String} {f : HostFunction} : I s →
    V (.native r) → (s.heap.native r).member? r name = some (.function f) →
    I { s with heap := (s.heap.newFunction f).2 } ∧ V (.host (s.heap.newFunction f).1)

/-- Overwriting containers with values that have the property keeps the invariant too, and so does
what else an operator can do. -/
structure Writable (I : State → Prop) (V : Value → Prop) (G : RegistryRef → Prop) : Prop extends
    Readable I V G where
  setList {s : State} {r : ListRef} {xs : List Value} : I s → V (.list r) → (∀ x ∈ xs, V x) →
    I { s with heap := s.heap.setList r xs }
  setMap {s : State} {r : MapRef} {fields : Fields Value} : I s → V (.map r) →
    (∀ e ∈ fields.entries, V e.2) → I { s with heap := s.heap.setMap r fields }
  newTimer {s : State} (t : Timer) : I s →
    I { s with heap := (s.heap.newNative (.timer t)).2 } ∧
      V (.native (s.heap.newNative (.timer t)).1)
  cancel {s : State} (timer : NativeRef) : I s → I { s with heap := s.heap.cancel timer }
  /-- Windows and printed text are free. -/
  sameHeap {s s' : State} : I s → s'.heap = s.heap → I s'
  /-- A reference from outside the heap leads to a body that needs no registry. -/
  captured {s : State} {r : ClosureRef} : I s → V (.closure r) →
    V (.map (s.heap.closure r).env) ∧
      (G (s.heap.closure r).registry ∨ (s.heap.closure r).body = .null) ∧
      ∀ e ∈ (s.heap.closure r).fixed, V e.2

namespace Readable

variable {I : State → Prop} {V : Value → Prop} {G : RegistryRef → Prop}

theorem ofInt (hI : Readable I V G) (n : Int) : V (Value.ofInt n) := by
  unfold Value.ofInt
  split <;> exact hI.plain rfl

mutual

theorem ofJson (hI : Readable I V G) (j : Json) {s : State} (hs : I s) :
    I { s with heap := (Value.ofJson j s.heap).2 } ∧ V (Value.ofJson j s.heap).1 := by
  match j with
  | .null | .bool _ | .float _ | .string _ => exact ⟨hs, hI.plain rfl⟩
  | .int n => exact ⟨hs, hI.ofInt n⟩
  | .array items =>
    obtain ⟨hs', hxs⟩ := ofItems hI items hs
    exact hI.newList hs' hxs
  | .object fields =>
    obtain ⟨hs', hfs⟩ := ofFields hI fields hs
    exact hI.newMap hs' (Fields.forall_values_ofList hfs)

theorem ofItems (hI : Readable I V G) (items : List Json) {s : State} (hs : I s) :
    I { s with heap := (Value.ofItems items s.heap).2 } ∧
      ∀ x ∈ (Value.ofItems items s.heap).1, V x := by
  match items with
  | [] => exact ⟨hs, fun _ hx => nomatch hx⟩
  | j :: rest =>
    obtain ⟨hs', hx⟩ := ofJson hI j hs
    obtain ⟨hs'', hxs⟩ := ofItems hI rest hs'
    exact ⟨hs'', List.forall_mem_cons.2 ⟨hx, hxs⟩⟩

theorem ofFields (hI : Readable I V G) (fields : List (String × Json)) {s : State} (hs : I s) :
    I { s with heap := (Value.ofFields fields s.heap).2 } ∧
      ∀ e ∈ (Value.ofFields fields s.heap).1, V e.2 := by
  match fields with
  | [] => exact ⟨hs, fun _ he => nomatch he⟩
  | (_, j) :: rest =>
    obtain ⟨hs', hx⟩ := ofJson hI j hs
    obtain ⟨hs'', hfs⟩ := ofFields hI rest hs'
    exact ⟨hs'', List.forall_mem_cons.2 ⟨hx, hfs⟩⟩

end

variable (hI : Readable I V G) {s : State}

include hI

theorem get? {r : MapRef} {name : String} {x : Value} (hs : I s) (hr : V (.map r))
    (hx : (s.heap.map r).get? name = some x) : V x :=
  hI.field hs hr (Fields.mem_entries.2 hx)

theorem getD_null {x? : Option Value} (hx : ∀ x ∈ x?, V x) : V (x?.getD .null) := by
  cases x? with
  | none => exact hI.plain rfl
  | some x => exact hx x rfl

theorem elements {v : Value} (hs : I s) (hv : V v) : ∀ x ∈ v.toElements s.heap, V x := by
  cases v with
  | list r => exact fun x hx => hI.element hs hv hx
  | null => exact fun x hx => nomatch hx
  | _ => exact List.forall_mem_singleton.2 hv

theorem nativeMember {r : NativeRef} {name : String} {x : Value} {h : Heap} (hs : I s)
    (hr : V (.native r)) (hm : Value.nativeMember s.heap r name = some (x, h)) :
    I { s with heap := h } ∧ V x := by
  obtain ⟨m, hmember, hvalue⟩ := Option.map_eq_some_iff.1 hm
  cases m with
  | held v =>
    obtain ⟨rfl, rfl⟩ := Prod.mk.inj hvalue
    exact ⟨hs, hI.held hs hr hmember⟩
  | document j =>
    have hj := hI.ofJson j hs
    rwa [show Value.ofJson j s.heap = (x, h) from hvalue] at hj
  | function f =>
    obtain ⟨rfl, rfl⟩ := Prod.mk.inj hvalue
    exact hI.newFunction hs hr hmember

theorem member {v key x : Value} {h : Heap} (hs : I s) (hv : V v)
    (hm : v.member s.heap key = some (x, h)) : I { s with heap := h } ∧ V x := by
  unfold Value.member at hm
  split at hm
  · obtain ⟨y, hy, he⟩ := Option.map_eq_some_iff.1 hm
    obtain ⟨i, -, hy⟩ := Option.bind_eq_some_iff.1 hy
    cases he
    exact ⟨hs, hI.element hs hv (List.mem_of_getElem? hy)⟩
  · obtain ⟨y, hy, he⟩ := Option.map_eq_some_iff.1 hm
    obtain ⟨name, -, hy⟩ := Option.bind_eq_some_iff.1 hy
    cases he
    exact ⟨hs, hI.get? hs hv hy⟩
  · obtain ⟨name, -, hm⟩ := Option.bind_eq_some_iff.1 hm
    exact hI.nativeMember hs hv hm
  · cases hm

end Readable

namespace Writable

variable {I : State → Prop} {V : Value → Prop} {G : RegistryRef → Prop} (hI : Writable I V G)
  {s : State}

include hI

theorem set {r : MapRef} (hs : I s) (hr : V (.map r)) (name : String) {value : Value}
    (hvalue : V value) : I { s with heap := s.heap.setMap r ((s.heap.map r).set name value) } :=
  hI.setMap hs hr (Fields.forall_values_set (fun _ he => hI.field hs hr he) name hvalue)

theorem erase {r : MapRef} (hs : I s) (hr : V (.map r)) (name : String) :
    I { s with heap := s.heap.setMap r ((s.heap.map r).erase name) } :=
  hI.setMap hs hr (Fields.forall_values_erase (fun _ he => hI.field hs hr he) name)

theorem assign {v key value : Value} {h : Heap} (hs : I s) (hv : V v) (hvalue : V value)
    (ha : v.assign s.heap key value = .ok h) : I { s with heap := h } := by
  unfold Value.assign at ha
  split at ha
  · split at ha
    · cases ha
      refine hI.setList hs hv fun x hx => ?_
      rcases List.mem_or_eq_of_mem_set hx with hx | rfl
      · exact hI.element hs hv hx
      · exact hvalue
    · cases ha
  · split at ha
    · cases ha
      exact hI.set hs hv _ hvalue
    · cases ha
  · cases ha

end Writable

end Sigil
