import Sigil.Value.Basic
import Sigil.Json.Writer

/-!
# Values and documents

`Value.ofJson` builds a value from a document, with a new container for every array and object.
`Value.toJson` goes back. A container that contains itself has no document; where a container is met
again on the way down from the root, the text `<cycle>` stands in its place.
-/

namespace Sigil

/-- A shared container. -/
inductive Container where
  | list (r : ListRef)
  | map (r : MapRef)
deriving DecidableEq, Repr

/-- How many of the items are still to be seen. -/
def unseen {α : Type} [DecidableEq α] (all seen : List α) : Nat := all.countP (· ∉ seen)

theorem unseen_cons_le {α : Type} [DecidableEq α] (all seen : List α) (x : α) :
    unseen all (x :: seen) ≤ unseen all seen :=
  List.countP_mono_left fun y _ hy => by
    simp only [List.mem_cons, not_or, decide_eq_true_eq] at hy ⊢
    exact hy.2

theorem unseen_cons_lt {α : Type} [DecidableEq α] {all seen : List α} {x : α}
    (hall : x ∈ all) (hseen : x ∉ seen) : unseen all (x :: seen) < unseen all seen := by
  induction all with
  | nil => cases hall
  | cons y rest ih =>
    by_cases hy : y ∈ x :: seen
    · rw [unseen,
        List.countP_cons_of_neg (by simpa only [decide_eq_true_eq, Decidable.not_not] using hy)]
      by_cases hys : y ∈ seen
      · rw [unseen, List.countP_cons_of_neg (by simpa using hys)]
        have hxy : x ≠ y := fun hxy => hseen (hxy ▸ hys)
        exact ih (by simpa [hxy] using hall)
      · rw [unseen, List.countP_cons_of_pos (by simpa using hys)]
        exact Nat.lt_succ_of_le (unseen_cons_le rest seen x)
    · have hxy : x ≠ y := fun hxy => hy (by simp [hxy])
      have hys : y ∉ seen := fun hys => hy (List.mem_cons_of_mem x hys)
      rw [unseen, List.countP_cons_of_pos (by simpa using hy), unseen,
        List.countP_cons_of_pos (by simpa using hys)]
      exact Nat.succ_lt_succ (ih (by simpa [hxy] using hall))

namespace Heap

/-- A list with elements is in the heap. -/
theorem lt_size_of_mem_list {h : Heap} {r : ListRef} {x : Value} (hx : x ∈ h.list r) :
    r.index < h.lists.size := by
  by_cases hr : r.index < h.lists.size
  · exact hr
  · simp [list, Array.getD, hr] at hx

/-- A map with fields is in the heap. -/
theorem lt_size_of_mem_map {h : Heap} {r : MapRef} {e : String × Value}
    (he : e ∈ (h.map r).entries) : r.index < h.maps.size := by
  by_cases hr : r.index < h.maps.size
  · exact hr
  · simp [map, Array.getD, hr, Fields.empty] at he

/-- The containers of a heap. -/
def containers (h : Heap) : List Container :=
  (List.range h.lists.size).map (.list ⟨·⟩) ++ (List.range h.maps.size).map (.map ⟨·⟩)

theorem list_mem_containers {h : Heap} {r : ListRef} (hr : r.index < h.lists.size) :
    .list r ∈ h.containers := by
  simp only [containers, List.mem_append, List.mem_map, List.mem_range]
  exact .inl ⟨r.index, hr, rfl⟩

theorem map_mem_containers {h : Heap} {r : MapRef} (hr : r.index < h.maps.size) :
    .map r ∈ h.containers := by
  simp only [containers, List.mem_append, List.mem_map, List.mem_range]
  exact .inr ⟨r.index, hr, rfl⟩

end Heap

namespace Value

/-- An integer that does not fit 64 bits becomes the nearest double. -/
def ofInt (n : Int) : Value :=
  if Int64.minValue.toInt ≤ n ∧ n ≤ Int64.maxValue.toInt then .int (Int64.ofInt n)
  else .float (Number.ofInt n)

mutual

def ofJson : Json → Heap → Value × Heap
  | .null, h => (.null, h)
  | .bool b, h => (.bool b, h)
  | .int n, h => (ofInt n, h)
  | .float x, h => (.float x, h)
  | .string s, h => (.string s, h)
  | .array items, h =>
    let (xs, h) := ofItems items h
    let (r, h) := h.newList xs
    (.list r, h)
  | .object fields, h =>
    let (fs, h) := ofFields fields h
    let (r, h) := h.newMap (.ofList fs)
    (.map r, h)

def ofItems : List Json → Heap → List Value × Heap
  | [], h => ([], h)
  | j :: rest, h =>
    let (x, h) := ofJson j h
    let (xs, h) := ofItems rest h
    (x :: xs, h)

def ofFields : List (String × Json) → Heap → List (String × Value) × Heap
  | [], h => ([], h)
  | (k, j) :: rest, h =>
    let (x, h) := ofJson j h
    let (fs, h) := ofFields rest h
    ((k, x) :: fs, h)

end

/-- Seconds of a number of nanoseconds: the sum of the whole seconds and of the fraction, each
rounded to a double. -/
def seconds (nanos : Nat) : Float :=
  let second := Number.pow10 9
  Number.ofInt (nanos / second : Nat) + Number.ofInt (nanos % second : Nat) / Number.ofInt second

end Value

def Native.toJson : Native → Json
  | .timer t =>
    .object [("timer", .float (Value.seconds t.period)), ("cancelled", .bool t.cancelled),
      ("ticks", .int t.ticks.toNat)]
  | .insertResult id => .object [("insertedId", id)]
  | .replaceResult found => .object [("matched", .bool found)]
  | .embedded o => o.document

namespace Value

/-- The document of a value below the containers in `path`. Every level puts one more container of
the heap on the path. -/
def unfold (h : Heap) (path : List Container) : Value → Json
  | .null => .null
  | .bool b => .bool b
  | .int n => .int n.toInt
  | .float x => if (Number.Parts.ofFloat x).isFinite then .float x else .null
  | .string s => .string s
  | .list r =>
    if _hr : .list r ∈ path then .string "<cycle>"
    else .array ((h.list r).attach.map fun ⟨x, _⟩ => unfold h (.list r :: path) x)
  | .map r =>
    if _hr : .map r ∈ path then .string "<cycle>"
    else .object ((h.map r).entries.attach.map fun ⟨e, _⟩ => (e.1, unfold h (.map r :: path) e.2))
  | .closure r => .string ("<function(" ++ ", ".intercalate (h.closure r).params ++ ")>")
  | .pattern p => .string p.source
  | .native r => (h.native r).toJson
  | .host r => .string ("<host " ++ (h.function r).name ++ ">")
termination_by unseen h.containers path
decreasing_by
  · exact unseen_cons_lt (Heap.list_mem_containers (Heap.lt_size_of_mem_list ‹_›)) ‹_›
  · exact unseen_cons_lt (Heap.map_mem_containers (Heap.lt_size_of_mem_map ‹_›)) ‹_›

theorem unfold_list (h : Heap) (path : List Container) (r : ListRef) :
    unfold h path (.list r) =
      if .list r ∈ path then .string "<cycle>"
      else .array ((h.list r).map (unfold h (.list r :: path))) := by
  rw [unfold]
  simp

theorem unfold_map (h : Heap) (path : List Container) (r : MapRef) :
    unfold h path (.map r) =
      if .map r ∈ path then .string "<cycle>"
      else .object ((h.map r).entries.map fun e => (e.1, unfold h (.map r :: path) e.2)) := by
  rw [unfold]
  simp only [dite_eq_ite]
  rw [List.attach_map_val (f := fun e : String × Value => (e.1, unfold h (.map r :: path) e.2))]

def toJson (h : Heap) (v : Value) : Json := unfold h [] v

end Value

end Sigil
