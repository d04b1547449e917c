import Sigil.Proofs.ArithmeticShape
import Sigil.Proofs.OperatorUniformity

/-!
# Paths as segments

A path is read and walked at once: what stands in a bracket is evaluated before the text after it
has been looked at. All the same it leads where its segments lead (`resolveText_segments`). `Spells`
says which segments stand at the beginning of a text, and `Scope.Reaches` and `Scope.Lost` where the
keys of some segments lead.
-/

namespace Sigil

namespace Path

/-! ## Segments of a text -/

def Segment.text : Segment → List Char
  | .name text => text
  | .computed expr => '[' :: expr ++ [']']

def Segment.WellFormed : Segment → Prop
  | .name text => text ≠ [] ∧ ∀ c ∈ text, isNameChar c = true
  | .computed expr => expr ≠ [] ∧ '[' ∉ expr ∧ ']' ∉ expr

/-- A name goes as far as it can. -/
def Segment.EndsBefore : Segment → List Char → Prop
  | .name _, rest => ∀ c ∈ rest.head?, isNameChar c = false
  | .computed _, _ => True

/-- The segments stand at the beginning of the text, each followed by at most one point, and the
tail comes after them. A point after a segment always belongs to it. -/
inductive Spells : List Char → List Segment → List Char → Prop where
  | nil (text : List Char) : Spells text [] text
  | bare {seg : Segment} {rest tail : List Char} {segs : List Segment} (hseg : seg.WellFormed)
      (hends : seg.EndsBefore rest) (hpoint : rest.head? ≠ some '.')
      (hrest : Spells rest segs tail) : Spells (seg.text ++ rest) (seg :: segs) tail
  | pointed {seg : Segment} {rest tail : List Char} {segs : List Segment} (hseg : seg.WellFormed)
      (hrest : Spells rest segs tail) : Spells (seg.text ++ '.' :: rest) (seg :: segs) tail

theorem dropPoint_of_ne {text : List Char} (h : text.head? ≠ some '.') : dropPoint text = text := by
  unfold dropPoint
  split
  · exact absurd rfl h
  · rfl

theorem nextSegment?_name {name rest : List Char} (hne : name ≠ [])
    (hname : ∀ c ∈ name, isNameChar c = true) (hrest : rest.takeWhile isNameChar = []) :
    nextSegment? (name ++ rest) = some (.name name, dropPoint rest) := by
  have htake : (name ++ rest).takeWhile isNameChar = name := by
    rw [List.takeWhile_append_of_pos hname, hrest, List.append_nil]
  unfold nextSegment?
  split
  · rename_i inner heq
    obtain ⟨c, cs, rfl⟩ := List.exists_cons_of_ne_nil hne
    have hbracket := hname c List.mem_cons_self
    rw [(List.cons.inj heq).1] at hbracket
    cases hbracket
  · simp only [htake, List.drop_left]
    rw [if_neg (by simpa using hne)]

theorem nextSegment?_text {seg : Segment} (hseg : seg.WellFormed) {rest : List Char}
    (hends : seg.EndsBefore rest) :
    nextSegment? (seg.text ++ rest) = some (seg, dropPoint rest) := by
  cases seg with
  | name name =>
    refine nextSegment?_name hseg.1 hseg.2 ?_
    cases rest with
    | nil => rfl
    | cons c rest => exact List.takeWhile_cons_of_neg (by simp [hends c rfl])
  | computed expr =>
    obtain ⟨hne, hopen, hclose⟩ := hseg
    have hexpr : ∀ c ∈ expr, decide (c ≠ ']') = true := by
      intro c hc
      simp only [decide_eq_true_eq]
      rintro rfl
      exact hclose hc
    have htake : (expr ++ ']' :: rest).takeWhile (· ≠ ']') = expr := by
      rw [List.takeWhile_append_of_pos hexpr, List.takeWhile_cons_of_neg (by decide),
        List.append_nil]
    have htext : (Segment.computed expr).text ++ rest = '[' :: (expr ++ ']' :: rest) := by
      simp [Segment.text]
    rw [htext]
    simp only [nextSegment?, htake, List.drop_left]
    rw [if_neg (by simp [hne, hopen])]

theorem eq_text_of_nextSegment? {text rest : List Char} {seg : Segment}
    (h : nextSegment? text = some (seg, rest)) :
    seg.WellFormed ∧
      ∃ after, text = seg.text ++ after ∧ seg.EndsBefore after ∧ rest = dropPoint after := by
  unfold nextSegment? at h
  split at h
  · rename_i inner
    dsimp only at h
    rw [drop_takeWhile] at h
    split at h
    · cases h
    · rename_i c tail htail
      split_ifs at h with hexpr
      obtain ⟨rfl, rfl⟩ := Prod.mk.inj (Option.some.inj h)
      have hc : c = ']' := by
        have hnot := List.head?_dropWhile_not (· ≠ ']') inner
        rw [htail] at hnot
        simpa using hnot
      subst hc
      have hclose : ']' ∉ inner.takeWhile (· ≠ ']') := fun hmem => by
        simpa using List.mem_takeWhile_imp hmem
      have hinner : inner.takeWhile (· ≠ ']') ++ ']' :: tail = inner := by
        rw [← htail, List.takeWhile_append_dropWhile]
      rw [Bool.or_eq_true, not_or, List.isEmpty_iff, List.contains_iff_mem] at hexpr
      refine ⟨⟨hexpr.1, hexpr.2, hclose⟩, tail, ?_, trivial, rfl⟩
      simp only [Segment.text, List.cons_append, List.append_assoc, List.nil_append, hinner]
  · dsimp only at h
    rw [drop_takeWhile] at h
    split_ifs at h with hempty
    obtain ⟨rfl, rfl⟩ := Prod.mk.inj (Option.some.inj h)
    refine ⟨⟨mt List.isEmpty_iff.2 hempty, fun c hc => List.mem_takeWhile_imp hc⟩,
      text.dropWhile isNameChar, List.takeWhile_append_dropWhile.symm, fun c hc => ?_, rfl⟩
    have hnot := List.head?_dropWhile_not isNameChar text
    rw [Option.mem_def.1 hc] at hnot
    exact hnot

/-- Segments are spelled as they are read. -/
theorem spells_cons_iff {text tail : List Char} {seg : Segment} {segs : List Segment} :
    Spells text (seg :: segs) tail ↔
      ∃ rest, nextSegment? text = some (seg, rest) ∧ Spells rest segs tail := by
  constructor
  · intro h
    cases h with
    | bare hseg hends hpoint hrest =>
      refine ⟨_, nextSegment?_text hseg hends, ?_⟩
      rwa [dropPoint_of_ne hpoint]
    | @pointed _ rest _ _ hseg hrest =>
      have hends : seg.EndsBefore ('.' :: rest) := by
        cases seg with
        | name => intro c hc; cases hc; rfl
        | computed => trivial
      exact ⟨_, nextSegment?_text hseg hends, hrest⟩
  · rintro ⟨rest, hnext, hrest⟩
    obtain ⟨hseg, after, rfl, hends, rfl⟩ := eq_text_of_nextSegment? hnext
    by_cases hpoint : after.head? = some '.'
    · obtain ⟨after, rfl⟩ := List.head?_eq_some_iff.1 hpoint
      exact .pointed hseg hrest
    · rw [dropPoint_of_ne hpoint] at hrest
      exact .bare hseg hends hpoint hrest

theorem spells_append_iff {text tail : List Char} {segs more : List Segment} :
    Spells text (segs ++ more) tail ↔ ∃ rest, Spells text segs rest ∧ Spells rest more tail := by
  induction segs generalizing text with
  | nil =>
    constructor
    · exact fun h => ⟨text, .nil text, h⟩
    · rintro ⟨rest, hnil, hmore⟩
      cases hnil
      exact hmore
  | cons seg segs ih =>
    simp only [List.cons_append, spells_cons_iff, ih]
    grind

theorem Spells.ne_nil {text tail : List Char} {seg : Segment} {segs : List Segment}
    (h : Spells text (seg :: segs) tail) : text ≠ [] := by
  rintro rfl
  obtain ⟨rest, hnext, -⟩ := spells_cons_iff.1 h
  cases hnext

/-- The segments that stand at the beginning of a text are the first of all its segments. -/
theorem Spells.isPrefix {text tail : List Char} {all segs : List Segment}
    (hall : Spells text all []) (hsegs : Spells text segs tail) : segs <+: all := by
  induction segs generalizing text all with
  | nil => exact List.nil_prefix
  | cons seg segs ih =>
    obtain ⟨rest, hnext, hrest⟩ := spells_cons_iff.1 hsegs
    cases all with
    | nil => cases hall; exact absurd rfl hsegs.ne_nil
    | cons other all =>
      obtain ⟨rest', hnext', hrest'⟩ := spells_cons_iff.1 hall
      obtain ⟨rfl, rfl⟩ := Prod.mk.inj (Option.some.inj (hnext.symm.trans hnext'))
      exact (List.prefix_cons_inj seg).2 (ih hrest' hrest)

/-! ## Reading all segments -/

/-- Some steps and then a trail. -/
def Trail.after : List Segment → Trail → Trail
  | [], trail => trail
  | seg :: segs, trail => .step seg (trail.after segs)

theorem Trail.read_succ {text rest : List Char} {seg : Segment}
    (hnext : nextSegment? text = some (seg, rest)) (n : Nat) :
    Trail.read (n + 1) text = if rest = [] then .last seg else .step seg (Trail.read n rest) := by
  rw [Trail.read, hnext]
  cases rest <;> rfl

theorem Trail.read_of_spells {text : List Char} {front : List Segment} {last : Segment}
    (h : Spells text (front ++ [last]) []) {n : Nat} (hn : text.length ≤ n) :
    Trail.read n text = (Trail.last last).after front := by
  induction front generalizing text n with
  | nil =>
    obtain ⟨rest, hnext, hrest⟩ := spells_cons_iff.1 h
    have hlength := (length_of_nextSegment? hnext).1
    obtain ⟨n, rfl⟩ : ∃ m, n = m + 1 := ⟨n - 1, by omega⟩
    cases hrest
    exact read_succ hnext n
  | cons seg front ih =>
    obtain ⟨rest, hnext, hrest⟩ := spells_cons_iff.1 h
    have hlength := (length_of_nextSegment? hnext).1
    obtain ⟨n, rfl⟩ : ∃ m, n = m + 1 := ⟨n - 1, by omega⟩
    have hne : rest ≠ [] := by
      cases front <;> exact hrest.ne_nil
    rw [read_succ hnext, if_neg hne, ih hrest (by omega)]
    rfl

/-- A text that is no sequence of segments is read up to the end of the segments it begins with. -/
theorem Trail.exists_read_of_not_spells {text : List Char}
    (h : ∀ segs ≠ [], ¬ Spells text segs []) {n : Nat} (hn : text.length ≤ n) :
    ∃ front tail, Spells text front tail ∧ Trail.read n text = Trail.malformed.after front := by
  induction n generalizing text with
  | zero => exact ⟨[], text, .nil text, rfl⟩
  | succ n ih =>
    cases hnext : nextSegment? text with
    | none => exact ⟨[], text, .nil text, by rw [Trail.read, hnext]; rfl⟩
    | some next =>
      obtain ⟨seg, rest⟩ := next
      have hlength := (length_of_nextSegment? hnext).1
      -- Were this the last segment, the text would be a sequence of one.
      have hne : rest ≠ [] := by
        rintro rfl
        exact h [seg] (List.cons_ne_nil _ _) (spells_cons_iff.2 ⟨[], hnext, .nil []⟩)
      obtain ⟨front, tail, hspells, hread⟩ := @ih rest
        (fun segs _ hsegs =>
          h (seg :: segs) (List.cons_ne_nil _ _) (spells_cons_iff.2 ⟨rest, hnext, hsegs⟩))
        (by omega)
      refine ⟨seg :: front, tail, spells_cons_iff.2 ⟨rest, hnext, hspells⟩, ?_⟩
      rw [read_succ hnext, if_neg hne, hread]
      rfl

theorem splitFirst?_point (rest : List Char) : splitFirst? (sigil :: '.' :: rest) =
    if rest.isEmpty then none else some ([sigil], rest) := by
  have htake : (sigil :: '.' :: rest).takeWhile isNameChar = [sigil] := by
    rw [List.takeWhile_cons_of_pos (by decide), List.takeWhile_cons_of_neg (by decide)]
  simp only [splitFirst?, htake]
  rfl

end Path

/-! ## Following keys -/

theorem Value.eq_null_of_isNull {v : Value} (hv : v.isNull = true) : v = .null := by
  cases v with
  | null => rfl
  | _ => cases hv

theorem EvalM.member?_of_some {v key x : Value} {s : State} {h : Heap}
    (hm : v.member s.heap key = some (x, h)) :
    EvalM.member? v key s = .ended ⟨.ok (some x), { s with heap := h }⟩ := by
  simp only [member?, onHeap, hm]

theorem EvalM.member?_of_none {v key : Value} {s : State} (hm : v.member s.heap key = none) :
    EvalM.member? v key s = .ended ⟨.ok none, s⟩ := by
  simp only [member?, onHeap, hm]

namespace Scope

open Sigil.Path

/-- A name is its own key. The key of an expression is its value, which it may take effects to
find. -/
def HasKey (sc : Scope) : Segment → State → Value → State → Prop
  | .name text, s, key, t => key = .string (String.ofList text) ∧ t = s
  | .computed expr, s, key, t =>
    sc.evaluate sc.env (.string (String.ofList expr)) s = .ended ⟨.ok key, t⟩

/-- The keys of the segments lead from one value to another, through values that are not null. -/
inductive Reaches (sc : Scope) : State → Value → List Segment → Value → State → Prop where
  | here (s : State) (v : Value) : Reaches sc s v [] v s
  | step {s t u : State} {v key x w : Value} {h : Heap} {seg : Segment} {segs : List Segment}
      (hkey : sc.HasKey seg s key t) (hm : v.member t.heap key = some (x, h))
      (hx : x.isNull = false) (hrest : Reaches sc { t with heap := h } x segs w u) :
      Reaches sc s v (seg :: segs) w u

/-- On the way along the segments a value is missing or null. -/
inductive Lost (sc : Scope) : State → Value → List Segment → Prop where
  | missing {s t : State} {v key : Value} {seg : Segment} (segs : List Segment)
      (hkey : sc.HasKey seg s key t) (hm : v.member t.heap key = none) : Lost sc s v (seg :: segs)
  | null {s t : State} {v key : Value} {h : Heap} {seg : Segment} (segs : List Segment)
      (hkey : sc.HasKey seg s key t) (hm : v.member t.heap key = some (.null, h)) :
      Lost sc s v (seg :: segs)
  | step {s t : State} {v key x : Value} {h : Heap} {seg : Segment} {segs : List Segment}
      (hkey : sc.HasKey seg s key t) (hm : v.member t.heap key = some (x, h))
      (hx : x.isNull = false) (hrest : Lost sc { t with heap := h } x segs) :
      Lost sc s v (seg :: segs)

/-- Every expression that the walk comes to has a value. -/
def BracketsEvaluate (sc : Scope) (s : State) (v : Value) (text : List Char) : Prop :=
  ∀ front expr tail w t, Spells text (front ++ [.computed expr]) tail → sc.Reaches s v front w t →
    ∃ key u, sc.HasKey (.computed expr) t key u

variable {sc : Scope}

theorem key_of_hasKey (hvalues : sc.values = .empty) {seg : Segment} {s t : State} {key : Value}
    (h : sc.HasKey seg s key t) : sc.key seg s = .ended ⟨.ok key, t⟩ := by
  cases seg with
  | name text =>
    obtain ⟨rfl, rfl⟩ := h
    simp only [Scope.key, hvalues, Fields.get?_empty, Option.getD_none]
    rfl
  | computed expr => exact h

theorem walk_of_reaches (hvalues : sc.values = .empty) {s t : State} {v w : Value}
    {segs : List Segment} (hreaches : sc.Reaches s v segs w t) (trail : Trail) :
    sc.walk (trail.after segs) v s = sc.walk trail w t := by
  induction hreaches with
  | here s v => rfl
  | step hkey hm hx _ ih =>
    refine (EvalM.bind_of_ok (key_of_hasKey hvalues hkey)).trans ?_
    refine (EvalM.bind_of_ok (EvalM.member?_of_some hm)).trans ?_
    simpa [hx] using ih

theorem walk_of_lost_segments (hvalues : sc.values = .empty) {s : State} {v : Value}
    {segs : List Segment} (hlost : sc.Lost s v segs) (trail : Trail) :
    ∃ u, sc.walk (trail.after segs) v s = .ended ⟨.ok .notFound, u⟩ := by
  induction hlost with
  | @missing s t v key seg segs hkey hm =>
    refine ⟨t, (EvalM.bind_of_ok (key_of_hasKey hvalues hkey)).trans ?_⟩
    exact EvalM.bind_of_ok (EvalM.member?_of_none hm)
  | @null s t v key h seg segs hkey hm =>
    refine ⟨{ t with heap := h }, (EvalM.bind_of_ok (key_of_hasKey hvalues hkey)).trans ?_⟩
    exact EvalM.bind_of_ok (EvalM.member?_of_some hm)
  | step hkey hm hx _ ih =>
    obtain ⟨u, hu⟩ := ih
    refine ⟨u, (EvalM.bind_of_ok (key_of_hasKey hvalues hkey)).trans ?_⟩
    refine (EvalM.bind_of_ok (EvalM.member?_of_some hm)).trans ?_
    simpa [hx] using hu

theorem BracketsEvaluate.exists_hasKey {s t : State} {v w : Value} {text tail : List Char}
    {front : List Segment} {seg : Segment} (h : sc.BracketsEvaluate s v text)
    (hspells : Spells text (front ++ [seg]) tail) (hreaches : sc.Reaches s v front w t) :
    ∃ key u, sc.HasKey seg t key u := by
  cases seg with
  | name name => exact ⟨_, t, rfl, rfl⟩
  | computed expr => exact h front expr tail w t hspells hreaches

/-- After a first segment, the walk comes to the expressions in the rest of the text. -/
theorem BracketsEvaluate.rest {s t : State} {v key x : Value} {hp : Heap} {text rest : List Char}
    {seg : Segment} (h : sc.BracketsEvaluate s v text)
    (hnext : nextSegment? text = some (seg, rest)) (hkey : sc.HasKey seg s key t)
    (hm : v.member t.heap key = some (x, hp)) (hx : x.isNull = false) :
    sc.BracketsEvaluate { t with heap := hp } x rest := by
  intro front expr tail w u hspells hreaches
  exact h (seg :: front) expr tail w u (spells_cons_iff.2 ⟨rest, hnext, hspells⟩)
    (.step hkey hm hx hreaches)

theorem reaches_or_lost {s : State} {v : Value} {text tail : List Char} {segs : List Segment}
    (h : sc.BracketsEvaluate s v text) (hspells : Spells text segs tail) :
    (∃ w t, sc.Reaches s v segs w t) ∨ sc.Lost s v segs := by
  induction segs generalizing s v text with
  | nil => exact .inl ⟨v, s, .here s v⟩
  | cons seg segs ih =>
    obtain ⟨rest, hnext, hrest⟩ := spells_cons_iff.1 hspells
    obtain ⟨key, t, hkey⟩ := h.exists_hasKey
      (spells_cons_iff.2 ⟨rest, hnext, .nil rest⟩ : Spells text ([] ++ [seg]) rest) (.here s v)
    cases hm : v.member t.heap key with
    | none => exact .inr (.missing segs hkey hm)
    | some found =>
      obtain ⟨x, hp⟩ := found
      cases hx : x.isNull with
      | true =>
        rw [Value.eq_null_of_isNull hx] at hm
        exact .inr (.null segs hkey hm)
      | false =>
        rcases ih (h.rest hnext hkey hm hx) hrest with ⟨w, u, hreaches⟩ | hlost
        · exact .inl ⟨w, u, .step hkey hm hx hreaches⟩
        · exact .inr (.step hkey hm hx hlost)

/-- No path is the name of a host value if none of these begins with the sigil. -/
theorem contains_path_eq_false
    (hvalues : ∀ name v, sc.values.get? name = some v → name.toList.head? ≠ some sigil)
    (rest : List Char) : sc.values.contains (String.ofList (sigil :: rest)) = false := by
  rw [Fields.contains, Option.isSome_eq_false_iff, Option.isNone_iff_eq_none]
  by_contra hne
  obtain ⟨v, hv⟩ := Option.ne_none_iff_exists'.1 hne
  exact hvalues _ v hv (by rw [String.toList_ofList]; rfl)

/-- After the point, a path is walked from the environment. -/
theorem resolveText_point {rest : List Char}
    (hunbound : sc.values.contains (String.ofList (sigil :: '.' :: rest)) = false) :
    sc.resolveText (sigil :: '.' :: rest) = sc.walk (.ofText rest) (.map sc.env) := by
  have hpath : ¬((sigil :: '.' :: rest = [sigil] ||
      sc.values.contains (String.ofList (sigil :: '.' :: rest)) ||
      !(sigil :: '.' :: rest).any fun c => c = '.' || c = '[') = true) := by
    rw [hunbound]
    simp
  rw [resolveText, if_neg hpath, splitFirst?_point]
  cases rest <;> rfl

/-- If the text after the point is a sequence of segments, the path leads to the place that the key
of the last one has in the value that the others lead to. It leads nowhere if they get lost, or if
the text is no such sequence. -/
theorem resolveText_segments (sc : Scope) (hvalues : sc.values = .empty) (text : List Char)
    (s : State) (hbrackets : sc.BracketsEvaluate s (.map sc.env) text) :
    (∀ front last, Spells text (front ++ [last]) [] →
      (∀ parent t, sc.Reaches s (.map sc.env) front parent t → ∃ key u, sc.HasKey last t key u ∧
        sc.resolveText (sigil :: '.' :: text) s = .ended ⟨.ok (.slot key parent), u⟩) ∧
      (sc.Lost s (.map sc.env) front →
        ∃ u, sc.resolveText (sigil :: '.' :: text) s = .ended ⟨.ok .notFound, u⟩) ∧
      ((∃ parent t, sc.Reaches s (.map sc.env) front parent t) ∨ sc.Lost s (.map sc.env) front)) ∧
    ((∀ segs ≠ [], ¬ Spells text segs []) →
      ∃ u, sc.resolveText (sigil :: '.' :: text) s = .ended ⟨.ok .notFound, u⟩) := by
  rw [resolveText_point (by rw [hvalues]; rfl)]
  refine ⟨fun front last hspells => ?_, fun hnot => ?_⟩
  · have htrail : Trail.ofText text = (Trail.last last).after front :=
      Trail.read_of_spells hspells (Nat.le_refl _)
    obtain ⟨rest, hfront, -⟩ := spells_append_iff.1 hspells
    rw [htrail]
    refine ⟨fun parent t hreaches => ?_, fun hlost => walk_of_lost_segments hvalues hlost _,
      reaches_or_lost hbrackets hfront⟩
    obtain ⟨key, u, hkey⟩ := hbrackets.exists_hasKey hspells hreaches
    refine ⟨key, u, hkey, ?_⟩
    rw [walk_of_reaches hvalues hreaches]
    exact EvalM.bind_of_ok (key_of_hasKey hvalues hkey)
  · obtain ⟨front, tail, hfront, htrail⟩ := Trail.exists_read_of_not_spells hnot (Nat.le_refl _)
    have hread : Trail.ofText text = Trail.malformed.after front := htrail
    rw [hread]
    -- The end is malformed, so it does not matter where the segments before it lead.
    rcases reaches_or_lost hbrackets hfront with ⟨parent, t, hreaches⟩ | hlost
    · exact ⟨t, walk_of_reaches hvalues hreaches _⟩
    · exact walk_of_lost_segments hvalues hlost _

namespace Cursor

/-- The environment has a list of rows and the position of one of them. -/
def start : State :=
  { heap :=
    { lists := #[[.null, .map ⟨1⟩]]
      maps := #[.ofList [("rows", .list ⟨0⟩), ("i", .int 1)], .empty] } }

def scope : Scope := Registry.builtin.scope (·.evaluate 2) ⟨0⟩

def text : List Char := "rows[$.i].name.".toList

def front : List Segment := [.name "rows".toList, .computed "$.i".toList]

def last : Segment := .name "name".toList

theorem spells : Spells text (front ++ [last]) [] := by
  refine spells_cons_iff.2 ⟨"[$.i].name.".toList, rfl, ?_⟩
  refine spells_cons_iff.2 ⟨"name.".toList, rfl, ?_⟩
  exact spells_cons_iff.2 ⟨[], rfl, .nil []⟩

theorem bracketsEvaluate : scope.BracketsEvaluate start (.map ⟨0⟩) text := by
  intro segs expr tail w t hspells hreaches
  obtain ⟨more, hmore⟩ := spells.isPrefix hspells
  have hsegs : segs = [.name "rows".toList] ∧ expr = "$.i".toList := by
    rcases segs with _ | ⟨a, _ | ⟨b, _ | ⟨c, segs⟩⟩⟩ <;> simp_all [front, last]
  obtain ⟨rfl, rfl⟩ := hsegs
  cases hreaches with
  | step hkey hm hx hrest =>
    obtain ⟨rfl, rfl⟩ := hkey
    cases hm
    cases hrest
    exact ⟨.int 1, start, rfl⟩

theorem reaches : scope.Reaches start (.map ⟨0⟩) front (.map ⟨1⟩) start :=
  .step ⟨rfl, rfl⟩ rfl rfl (.step rfl rfl rfl (.here _ _))

theorem resolveText_cursor :
    Spells text (front ++ [last]) [] ∧ scope.BracketsEvaluate start (.map ⟨0⟩) text ∧
      scope.Reaches start (.map ⟨0⟩) front (.map ⟨1⟩) start ∧
      scope.resolveText "$.rows[$.i].name.".toList start =
        .ended ⟨.ok (.slot (.string "name") (.map ⟨1⟩)), start⟩ := by
  have hplace := (resolveText_segments scope rfl text start bracketsEvaluate).1 front last spells
  obtain ⟨key, u, ⟨rfl, rfl⟩, hresolve⟩ := hplace.1 _ _ reaches
  exact ⟨spells, bracketsEvaluate, reaches, hresolve⟩

end Cursor

end Scope

end Sigil
