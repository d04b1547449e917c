import Sigil.Value.Document
import Sigil.Error

/-!
# Structural equality and identity keys

Two values are structurally equal if nothing that a program can read tells them apart: numbers
compare as numbers, containers by their contents, functions and native objects by identity. A pair
of containers met again while it is being compared counts as equal, so self-referencing data can be
compared too.

Identity keys are texts under which recently seen values are remembered.
-/

namespace Sigil.Value

/-- Equality of values that are not containers. -/
def scalarEqual : Value → Value → Bool
  | .null, .null => true
  | .bool a, .bool b => a == b
  | .int a, .int b => a == b
  | .float a, .float b => a == b
  | .int a, .float b => Number.ofInt a.toInt == b
  | .float a, .int b => Number.ofInt b.toInt == a
  | .string a, .string b => a == b
  | .closure a, .closure b => a == b
  | .pattern a, .pattern b => a.source == b.source
  | .native a, .native b => a == b
  | .host a, .host b => a == b
  | _, _ => false

/-- The pairs of containers that a comparison can open. -/
def pairs (h : Heap) : List (Container × Container) :=
  h.containers.flatMap fun c => h.containers.map fun d => (c, d)

theorem mem_pairs {h : Heap} {c d : Container} (hc : c ∈ h.containers) (hd : d ∈ h.containers) :
    (c, d) ∈ pairs h :=
  List.mem_flatMap.2 ⟨c, hc, List.mem_map.2 ⟨d, hd, rfl⟩⟩

/-- Equality below the pairs of containers being compared. Every level opens one more pair of the
heap. -/
def equalBelow (h : Heap) (open_ : List (Container × Container)) : Value → Value → Bool
  | .list a, .list b =>
    if _hp : a = b ∨ (.list a, .list b) ∈ open_ then true
    else
      (h.list a).length == (h.list b).length &&
        ((h.list a).zip (h.list b)).attach.all fun ⟨e, _⟩ =>
          equalBelow h ((.list a, .list b) :: open_) e.1 e.2
  | .map a, .map b =>
    if _hp : a = b ∨ (.map a, .map b) ∈ open_ then true
    else
      (h.map a).size == (h.map b).size &&
        (h.map a).entries.attach.all fun ⟨e, _⟩ =>
          match _hy : (h.map b).get? e.1 with
          | some y => equalBelow h ((.map a, .map b) :: open_) e.2 y
          | none => false
  | x, y => scalarEqual x y
termination_by unseen (pairs h) open_
decreasing_by
  · have he := List.of_mem_zip (a := e.1) (b := e.2) ‹_›
    exact unseen_cons_lt (mem_pairs (Heap.list_mem_containers (Heap.lt_size_of_mem_list he.1))
      (Heap.list_mem_containers (Heap.lt_size_of_mem_list he.2))) (not_or.1 _hp).2
  · exact unseen_cons_lt (mem_pairs (Heap.map_mem_containers (Heap.lt_size_of_mem_map ‹_›))
      (Heap.map_mem_containers (Heap.lt_size_of_mem_map (mem_of_lookup _hy)))) (not_or.1 _hp).2

theorem equalBelow_list {h : Heap} {open_ : List (Container × Container)} {a b : ListRef} :
    equalBelow h open_ (.list a) (.list b) = true ↔
      (a = b ∨ (.list a, .list b) ∈ open_) ∨ (h.list a).length = (h.list b).length ∧
        ∀ e ∈ (h.list a).zip (h.list b),
          equalBelow h ((.list a, .list b) :: open_) e.1 e.2 = true := by
  rw [equalBelow]
  split <;> rename_i hp <;> simp [hp]

theorem equalBelow_map {h : Heap} {open_ : List (Container × Container)} {a b : MapRef} :
    equalBelow h open_ (.map a) (.map b) = true ↔
      (a = b ∨ (.map a, .map b) ∈ open_) ∨ (h.map a).size = (h.map b).size ∧
        ∀ e ∈ (h.map a).entries, ∃ y, (h.map b).get? e.1 = some y ∧
          equalBelow h ((.map a, .map b) :: open_) e.2 y = true := by
  rw [equalBelow]
  split
  · rename_i hp
    simp [hp]
  · rename_i hp
    simp only [hp, false_or, Bool.and_eq_true, beq_iff_eq, List.all_eq_true, List.mem_attach,
      true_implies, Subtype.forall]
    refine and_congr_right fun _ => forall_congr' fun e => forall_congr' fun _ => ?_
    split <;> rename_i hy <;> simp [hy]

def structEq (h : Heap) (a b : Value) : Bool := equalBelow h [] a b

/-- The key of a double: that of the equal integer if there is one within the range in which doubles
tell integers apart, and its digits otherwise. -/
def floatKey (x : Float) : List Char :=
  let parts := Number.Parts.ofFloat x
  if parts.isInteger && parts.truncate.natAbs < 9 * Number.pow10 15 then Json.intText parts.truncate
  else displayStyle.write x

/-- The identity key of a value. -/
def identityKey (h : Heap) : Value → String
  | .null => "z:"
  | .bool b => s!"b:{b}"
  | .int n => "n:" ++ String.ofList (Json.intText n.toInt)
  | .float x => "n:" ++ String.ofList (floatKey x)
  | .string s => "s:" ++ s
  | .pattern p => "r:" ++ p.source
  | .list r => "j:" ++ (toJson h (.list r)).render
  | .map r => "j:" ++ (toJson h (.map r)).render
  | .closure r => s!"c:{r.index}"
  | .native r => s!"h:{r.index}"
  | .host r => s!"f:{r.index}"

end Sigil.Value
