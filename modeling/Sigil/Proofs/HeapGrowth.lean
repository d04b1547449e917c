import Sigil.Value.Basic

/-!
# Heaps only grow

Containers and functions are allocated and overwritten, but none disappears: every operation on the
heap leads to a heap that has grown (`Heap.Grows`), so a reference into the old one stays good. What
only allocates leaves all that was there as it was (`Heap.Extends`), and writing to one place of a
container leaves its other places.
-/

namespace Sigil

/-- No container or function disappears. -/
structure Heap.Grows (h h' : Heap) : Prop where
  lists : h.lists.size ≤ h'.lists.size
  maps : h.maps.size ≤ h'.maps.size
  closures : h.closures.size ≤ h'.closures.size
  natives : h.natives.size ≤ h'.natives.size
  functions : h.functions.size ≤ h'.functions.size

namespace Heap

theorem Grows.refl (h : Heap) : h.Grows h := by
  constructor <;> exact Nat.le_refl _

theorem Grows.trans {h h' h'' : Heap} (g : h.Grows h') (g' : h'.Grows h'') : h.Grows h'' where
  lists := Nat.le_trans g.lists g'.lists
  maps := Nat.le_trans g.maps g'.maps
  closures := Nat.le_trans g.closures g'.closures
  natives := Nat.le_trans g.natives g'.natives
  functions := Nat.le_trans g.functions g'.functions

theorem grows_newList (h : Heap) (xs : List Value) : h.Grows (h.newList xs).2 := by
  constructor <;> simp [newList]

theorem grows_newMap (h : Heap) (fields : Fields Value) : h.Grows (h.newMap fields).2 := by
  constructor <;> simp [newMap]

theorem grows_newClosure (h : Heap) (c : Closure) : h.Grows (h.newClosure c).2 := by
  constructor <;> simp [newClosure]

theorem grows_newNative (h : Heap) (n : Native) : h.Grows (h.newNative n).2 := by
  constructor <;> simp [newNative]

theorem grows_newFunction (h : Heap) (f : HostFunction) : h.Grows (h.newFunction f).2 := by
  constructor <;> simp [newFunction]

theorem grows_setList (h : Heap) (r : ListRef) (xs : List Value) : h.Grows (h.setList r xs) := by
  constructor <;> simp [setList]

theorem grows_setMap (h : Heap) (r : MapRef) (fields : Fields Value) :
    h.Grows (h.setMap r fields) := by
  constructor <;> simp [setMap]

theorem grows_cancel (h : Heap) (r : NativeRef) : h.Grows (h.cancel r) := by
  unfold cancel
  split
  · constructor <;> simp [setNative]
  · exact .refl h

/-! ## Allocation -/

/-- The containers and functions of the first heap are in the second as they were. -/
structure Extends (h h' : Heap) : Prop where
  lists : h.lists.toList <+: h'.lists.toList
  maps : h.maps.toList <+: h'.maps.toList
  closures : h.closures.toList <+: h'.closures.toList
  functions : h.functions.toList <+: h'.functions.toList

theorem getElem?_of_isPrefix {α : Type} {xs ys : Array α} (hstart : xs.toList <+: ys.toList)
    {i : Nat} (hi : i < xs.size) : ys[i]? = xs[i]? := by
  obtain ⟨zs, hzs⟩ := hstart
  rw [← Array.getElem?_toList, ← hzs, List.getElem?_append_left (by simpa using hi),
    Array.getElem?_toList]

theorem getD_of_isPrefix {α : Type} {xs ys : Array α} (hstart : xs.toList <+: ys.toList) {i : Nat}
    (hi : i < xs.size) (d d' : α) : ys.getD i d = xs.getD i d' := by
  simp [Array.getD_eq_getD_getElem?, getElem?_of_isPrefix hstart hi, hi]

namespace Extends

variable {h h' h'' : Heap}

theorem refl (h : Heap) : h.Extends h :=
  ⟨List.prefix_rfl, List.prefix_rfl, List.prefix_rfl, List.prefix_rfl⟩

theorem trans (e : h.Extends h') (e' : h'.Extends h'') : h.Extends h'' where
  lists := e.lists.trans e'.lists
  maps := e.maps.trans e'.maps
  closures := e.closures.trans e'.closures
  functions := e.functions.trans e'.functions

theorem list (e : h.Extends h') {r : ListRef} (hr : r.index < h.lists.size) :
    h'.list r = h.list r :=
  getD_of_isPrefix e.lists hr _ _

theorem map (e : h.Extends h') {r : MapRef} (hr : r.index < h.maps.size) : h'.map r = h.map r :=
  getD_of_isPrefix e.maps hr _ _

theorem closure (e : h.Extends h') {r : ClosureRef} (hr : r.index < h.closures.size) :
    h'.closure r = h.closure r :=
  getD_of_isPrefix e.closures hr _ _

theorem function (e : h.Extends h') {r : HostRef} (hr : r.index < h.functions.size) :
    h'.function r = h.function r :=
  getD_of_isPrefix e.functions hr _ _

end Extends

theorem extends_newList (h : Heap) (xs : List Value) : h.Extends (h.newList xs).2 := by
  constructor <;> simp [newList]

theorem extends_newMap (h : Heap) (fields : Fields Value) : h.Extends (h.newMap fields).2 := by
  constructor <;> simp [newMap]

theorem extends_newClosure (h : Heap) (c : Closure) : h.Extends (h.newClosure c).2 := by
  constructor <;> simp [newClosure]

theorem extends_newNative (h : Heap) (n : Native) : h.Extends (h.newNative n).2 := by
  constructor <;> simp [newNative]

theorem extends_newFunction (h : Heap) (f : HostFunction) : h.Extends (h.newFunction f).2 := by
  constructor <;> simp [newFunction]

/-! ## Writing -/

theorem list_of_le {h : Heap} {r : ListRef} (hr : h.lists.size ≤ r.index) : h.list r = [] := by
  simp [list, Array.getD, Nat.not_lt.2 hr]

theorem setList_of_le {h : Heap} {r : ListRef} (hr : h.lists.size ≤ r.index) (xs : List Value) :
    h.setList r xs = h := by
  simp [setList, Array.setIfInBounds, Nat.not_lt.2 hr]

theorem setMap_of_le {h : Heap} {r : MapRef} (hr : h.maps.size ≤ r.index) (fields : Fields Value) :
    h.setMap r fields = h := by
  simp [setMap, Array.setIfInBounds, Nat.not_lt.2 hr]

theorem list_setList {h : Heap} {r : ListRef} (hr : r.index < h.lists.size) (xs : List Value) :
    (h.setList r xs).list r = xs := by
  simp [list, setList, Array.getD, hr]

/-- Writing one element of a list leaves the others alone, wherever the list is. -/
theorem getElem?_setList_ne (h : Heap) (r : ListRef) {i j : Nat} (hne : j ≠ i) (v : Value) :
    ((h.setList r ((h.list r).set i v)).list r)[j]? = (h.list r)[j]? := by
  by_cases hr : r.index < h.lists.size
  · simp [list_setList hr, hne.symm]
  · simp [list, setList, Array.getD, hr]

theorem map_setMap {h : Heap} {r : MapRef} (hr : r.index < h.maps.size) (fields : Fields Value) :
    (h.setMap r fields).map r = fields := by
  simp [map, setMap, Array.getD, hr]

/-- Writing one name of a map leaves the others alone, wherever the map is. -/
theorem get?_setMap_ne (h : Heap) (r : MapRef) {name other : String} (hne : other ≠ name)
    (v : Value) :
    ((h.setMap r ((h.map r).set name v)).map r).get? other = (h.map r).get? other := by
  by_cases hr : r.index < h.maps.size
  · simp [map_setMap hr, hne]
  · simp [map, setMap, Array.getD, hr]

theorem isPrefix_setIfInBounds {α : Type} {xs ys : Array α} (hstart : xs.toList <+: ys.toList)
    {i : Nat} (hi : xs.size ≤ i) (a : α) : xs.toList <+: (ys.setIfInBounds i a).toList := by
  obtain ⟨zs, hzs⟩ := hstart
  rw [Array.toList_setIfInBounds, ← hzs, List.set_append_right _ _ (by simpa using hi)]
  exact List.prefix_append _ _

/-- Writing to a list that is not in the first heap leaves that heap's contents. -/
theorem Extends.setList {h h' : Heap} (e : h.Extends h') {r : ListRef} (hr : h.lists.size ≤ r.index)
    (xs : List Value) : h.Extends (h'.setList r xs) :=
  { e with lists := isPrefix_setIfInBounds e.lists hr xs }

theorem Extends.setMap {h h' : Heap} (e : h.Extends h') {r : MapRef} (hr : h.maps.size ≤ r.index)
    (fields : Fields Value) : h.Extends (h'.setMap r fields) :=
  { e with maps := isPrefix_setIfInBounds e.maps hr fields }

end Heap

end Sigil
