import Sigil.Proofs.PathWalk
import Sigil.Proofs.PlainData

/-!
# Segments after a point and in brackets

A segment such as `rows` can be written `.rows` or `[rows]`. After a point it is a name, and in
brackets it is evaluated, but a word that is no expression comes to the same key either way. So a
path leads to the same place however its segments are written (`resolve_respelled`). Where a list of
keys leads is told by `Heap.descend`.
-/

namespace Sigil

namespace Path

/-! ## Spellings -/

/-- A segment as it is written. -/
inductive Spelling where
  | point (body : String)
  | bracket (body : String)

namespace Spelling

def body : Spelling → String
  | .point body | .bracket body => body

def text : Spelling → List Char
  | .point body => '.' :: body.toList
  | .bracket body => '[' :: body.toList ++ [']']

def segment : Spelling → Segment
  | .point body => .name body.toList
  | .bracket body => .computed body.toList

end Spelling

/-- The path of segments as they are written, such as `$.a[b]`. -/
def ofSpellings (spellings : List Spelling) : String :=
  String.ofList (sigil :: spellings.flatMap Spelling.text)

/-- A name that is neither a path nor a comparison. It is no arithmetic either, since it has no
spaces. -/
structure IsWord (body : String) : Prop where
  isName : IsName body
  noPath : body.toList.head? ≠ some sigil
  noComparison : Shorthand.comparison? body.toList = none

/-- What stands in brackets is a word. -/
def Spelling.WellFormed : Spelling → Prop
  | .point body => IsName body
  | .bracket body => IsWord body

theorem IsWord.wellFormed {spelling : Spelling} (h : IsWord spelling.body) :
    spelling.WellFormed := by
  cases spelling with
  | point body => exact h.isName
  | bracket body => exact h

theorem not_mem_of_isName {body : String} (h : IsName body) {c : Char} (hc : isNameChar c = false) :
    c ∉ body.toList := by
  intro hmem
  rw [h.2 c hmem] at hc
  cases hc

theorem takeWhile_spellings (spellings : List Spelling) :
    (spellings.flatMap Spelling.text).takeWhile isNameChar = [] := by
  cases spellings with
  | nil => rfl
  | cons spelling rest => cases spelling <;> rfl

/-- The point in front of a segment belongs to what stands before it, and there is none in front of
a bracket. -/
theorem spells_spellings {spellings : List Spelling} (hwf : ∀ sp ∈ spellings, sp.WellFormed) :
    Spells (dropPoint (spellings.flatMap Spelling.text)) (spellings.map Spelling.segment) [] := by
  induction spellings with
  | nil => exact .nil []
  | cons spelling rest ih =>
    rw [List.forall_mem_cons] at hwf
    refine spells_cons_iff.2 ⟨dropPoint (rest.flatMap Spelling.text), ?_, ih hwf.2⟩
    cases spelling with
    | point body => exact nextSegment?_name hwf.1.1 hwf.1.2 (takeWhile_spellings rest)
    | bracket body =>
      have hname := hwf.1.isName
      have hseg : (Segment.computed body.toList).WellFormed :=
        ⟨hname.1, not_mem_of_isName hname (by decide), not_mem_of_isName hname (by decide)⟩
      exact nextSegment?_text hseg trivial

/-- A path that does not begin with a point gets one. -/
theorem normalizePath_spellings {spellings : List Spelling} (hne : spellings ≠ []) :
    normalizePath (sigil :: spellings.flatMap Spelling.text) =
      sigil :: '.' :: dropPoint (spellings.flatMap Spelling.text) := by
  obtain ⟨spelling, rest, rfl⟩ := List.exists_cons_of_ne_nil hne
  cases spelling <;> rfl

end Path

/-! ## Following keys -/

/-- Where keys lead from a value, through values that are not null, and the heap at the end, since
reading a member may allocate. They lead nowhere if a value is missing or null. -/
def Heap.descend : Heap → Value → List Value → Option Value × Heap
  | h, v, [] => (some v, h)
  | h, v, key :: keys =>
    match v.member h key with
    | some (x, h') => if x.isNull then (none, h') else h'.descend x keys
    | none => (none, h)

/-- The place that a key has in the value to which others lead, if they lead to one. -/
def Location.inside (key : Value) : Option Value → Location
  | some parent => .slot key parent
  | none => .notFound

namespace Scope

open Sigil.Path

variable {sc : Scope}

/-- The key of a name: the value that the embedder bound to it, or the name itself. -/
def named (sc : Scope) (name : String) : Value := (sc.values.get? name).getD (.string name)

/-- A walk whose segments have the keys of their bodies follows these keys. -/
theorem walk_spellings {front : List Spelling} {last : Spelling}
    (hkeys : ∀ sp ∈ front ++ [last], sc.key sp.segment = pure (sc.named sp.body)) (v : Value)
    (s : State) :
    let found := s.heap.descend v (front.map fun sp => sc.named sp.body)
    sc.walk ((Trail.last last.segment).after (front.map Spelling.segment)) v s =
      .ended ⟨.ok (.inside (sc.named last.body) found.1), { s with heap := found.2 }⟩ := by
  induction front generalizing v s with
  | nil =>
    have hlast := congrFun (hkeys last (by simp)) s
    exact EvalM.bind_of_ok hlast
  | cons spelling rest ih =>
    rw [List.cons_append, List.forall_mem_cons] at hkeys
    refine (EvalM.bind_of_ok (congrFun hkeys.1 s)).trans ?_
    cases hm : v.member s.heap (sc.named spelling.body) with
    | none =>
      refine (EvalM.bind_of_ok (EvalM.member?_of_none hm)).trans ?_
      simp only [List.map_cons, Heap.descend, hm]
      rfl
    | some found =>
      obtain ⟨x, h⟩ := found
      refine (EvalM.bind_of_ok (EvalM.member?_of_some hm)).trans ?_
      simp only [List.map_cons, Heap.descend, hm]
      split
      · rfl
      · exact ih hkeys.2 x { s with heap := h }

end Scope

namespace Registry

open Sigil.Path

variable {reg : Registry}

/-- A word in brackets has the key that it has as a name. -/
theorem key_segment {spelling : Spelling} (hwf : spelling.WellFormed) (depth : Nat) (env : MapRef) :
    let sc := reg.scope (·.evaluate (depth + 1)) env
    sc.key spelling.segment = pure (sc.named spelling.body) := by
  intro sc
  cases spelling with
  | point body =>
    simp only [Spelling.segment, Scope.key, String.ofList_toList]
    rfl
  | bracket body =>
    have harithmetic := Shorthand.arithmetic?_eq_none (not_mem_of_isName hwf.isName (c := ' ') rfl)
    have htext := reg.evalText_of_no_expression hwf.noPath hwf.noComparison harithmetic
      (·.evaluate depth) env
    simp only [Spelling.segment, Scope.key, String.ofList_toList]
    rw [String.ofList_toList] at htext
    exact htext

/-- A path leads to the place that the key of its last segment has in the value to which the keys of
the others lead from the environment. -/
theorem resolve_ofSpellings
    (hvalues : ∀ name v, reg.values.get? name = some v → name.toList.head? ≠ some sigil)
    {front : List Spelling} {last : Spelling} (hwf : ∀ sp ∈ front ++ [last], sp.WellFormed)
    (depth : Nat) (env : MapRef) (s : State) :
    let sc := reg.scope (·.evaluate (depth + 1)) env
    let found := s.heap.descend (.map env) (front.map fun sp => sc.named sp.body)
    sc.resolve (.ofForm (.string (ofSpellings (front ++ [last])))) s =
      .ended ⟨.ok (.inside (sc.named last.body) found.1), { s with heap := found.2 }⟩ := by
  intro sc found
  have hspells := spells_spellings hwf
  rw [List.map_append] at hspells
  have htrail := Trail.read_of_spells hspells (Nat.le_refl _)
  have hpoint (rest : List Char) : sc.resolveText (sigil :: '.' :: rest) =
      sc.walk (.ofText rest) (.map env) :=
    Scope.resolveText_point (Scope.contains_path_eq_false hvalues _)
  simp only [Scope.resolve, Operand.ofForm, Operand.text?, Json.string?, ofSpellings,
    String.toList_ofList, normalizePath_spellings (List.concat_ne_nil last front)]
  rw [hpoint, Trail.ofText, htrail]
  exact Scope.walk_spellings (fun sp hsp => key_segment (hwf sp hsp) depth env) (.map env) s

end Registry

/-- Every path leads where it leads with any of its segments written the other way, after a point or
in brackets: to the same place in the same container, or nowhere. -/
theorem resolve_respelled (reg : Registry)
    (hvalues : ∀ name v, reg.values.get? name = some v → name.toList.head? ≠ some sigil)
    (front : List String) (last : String) (hwords : ∀ body ∈ front ++ [last], Path.IsWord body)
    (spellings respelled : List Path.Spelling)
    (hspellings : spellings.map Path.Spelling.body = front ++ [last])
    (hrespelled : respelled.map Path.Spelling.body = front ++ [last]) (depth : Nat) (env : MapRef)
    (s : State) :
    let sc := reg.scope (·.evaluate (depth + 1)) env
    let found := s.heap.descend (.map env) (front.map sc.named)
    sc.resolve (.ofForm (.string (Path.ofSpellings respelled))) s =
        sc.resolve (.ofForm (.string (Path.ofSpellings spellings))) s ∧
      sc.resolve (.ofForm (.string (Path.ofSpellings spellings))) s =
        .ended ⟨.ok (.inside (sc.named last) found.1), { s with heap := found.2 }⟩ := by
  intro sc found
  have hresolve (written : List Path.Spelling)
      (hwritten : written.map Path.Spelling.body = front ++ [last]) :
      sc.resolve (.ofForm (.string (Path.ofSpellings written))) s =
        .ended ⟨.ok (.inside (sc.named last) found.1), { s with heap := found.2 }⟩ := by
    obtain ⟨before, ends, rfl, rfl, hends⟩ := List.map_eq_append_iff.1 hwritten
    obtain ⟨final, rfl, rfl⟩ := List.map_eq_singleton_iff.1 hends
    have hwf : ∀ sp ∈ before ++ [final], sp.WellFormed := fun sp hsp =>
      (hwords sp.body (by rw [← hwritten]; exact List.mem_map_of_mem hsp)).wellFormed
    have hfound : found = s.heap.descend (.map env) (before.map fun sp => sc.named sp.body) := by
      simp only [found, List.map_map]
      rfl
    rw [hfound]
    exact reg.resolve_ofSpellings hvalues hwf depth env s
  exact ⟨(hresolve respelled hrespelled).trans (hresolve spellings hspellings).symm,
    hresolve spellings hspellings⟩

namespace Respelling

/-- The word `k` is bound to the position of a row. -/
def reg : Registry := .only (Bindings.builtin.bindValue "k" (.int 1))

def scope : Scope := reg.scope (·.evaluate 1) ⟨0⟩

def start : State :=
  { heap :=
    { lists := #[[.null, .map ⟨1⟩]]
      maps := #[.ofList [("rows", .list ⟨0⟩)], .empty] } }

theorem resolve_respelled_row :
    Path.ofSpellings [.point "rows", .bracket "k", .point "name"] = "$.rows[k].name" ∧
      Path.ofSpellings [.bracket "rows", .point "k", .bracket "name"] = "$[rows].k[name]" ∧
      scope.resolve (.ofForm (.string "$[rows].k[name]")) start =
        .ended ⟨.ok (.slot (.string "name") (.map ⟨1⟩)), start⟩ ∧
      scope.resolve (.ofForm (.string "$.rows[k].name")) start =
        .ended ⟨.ok (.slot (.string "name") (.map ⟨1⟩)), start⟩ := by
  have hvalues : ∀ name v, reg.values.get? name = some v → name.toList.head? ≠ some sigil := by
    intro name v hv
    have hmem : (name, v) ∈ [("k", Value.int 1)] := Fields.mem_entries.2 hv
    obtain ⟨rfl, -⟩ := Prod.mk.inj (List.mem_singleton.1 hmem)
    decide
  have hwords : ∀ body ∈ ["rows", "k"] ++ ["name"], Path.IsWord body := by
    simp only [List.cons_append, List.nil_append, List.forall_mem_cons]
    refine ⟨⟨?_, by decide, by decide⟩, ⟨?_, by decide, by decide⟩, ⟨?_, by decide, by decide⟩, ?_⟩
    all_goals simp [Path.IsName, Path.isNameChar]
  obtain ⟨hsame, hplace⟩ := resolve_respelled reg hvalues ["rows", "k"] "name" hwords
    [.point "rows", .bracket "k", .point "name"] [.bracket "rows", .point "k", .bracket "name"]
    rfl rfl 0 ⟨0⟩ start
  exact ⟨rfl, rfl, hsame.trans hplace, hplace⟩

end Respelling

end Sigil
