import Sigil.Proofs.ReadBack
import Sigil.Proofs.UniqueElements

/-!
# Keys of documents

Structurally equal values may have different keys, but the values of documents whose numbers are
integers never share a key unless they are equal. The key is determined by what is read back from
the value (`Value.ReadsAs.identityKey_eq`), it tells all such documents apart
(`Json.Integral.keyChars_inj`), and values that are read back alike are bisimilar
(`Value.isBisimulation_readsAs`). So `toUnique` drops an element only for a key that is structurally
equal to one that it has seen: `structEq_of_identityKey_eq`.
-/

namespace Sigil

namespace Json

/-! ## Texts without doubles -/

/-- All numbers in the document are integers of 64 bits. -/
inductive Integral : Json → Prop where
  | null : Integral .null
  | bool (b : Bool) : Integral (.bool b)
  | int {n : Int} (hn : Int64.minValue.toInt ≤ n ∧ n ≤ Int64.maxValue.toInt) : Integral (.int n)
  | string (s : String) : Integral (.string s)
  | array {items : List Json} (hitems : ∀ j ∈ items, Integral j) : Integral (.array items)
  | object {fields : List (String × Json)} (hfields : ∀ e ∈ fields, Integral e.2) :
      Integral (.object fields)

theorem intText_inj {m n : Int} (h : intText m = intText n) : m = n := by
  have hread := readInt?_intText m
  rw [h, readInt?_intText] at hread
  exact (Option.some.inj hread).symm

theorem isWord_of_chars_eq {i j : Json} (hi : IsWord i) (h : chars i = chars j) : IsWord j := by
  obtain ⟨hne, hall⟩ := word_chars hi
  obtain ⟨c, cs, hcs⟩ := List.exists_cons_of_ne_nil hne
  refine isWord_of_leads (hall c (hcs ▸ List.mem_cons_self)) (leads_of_cons (s := cs) (t := []) ?_)
  rw [List.append_nil, ← h, hcs]

/-- No integer is written with a letter. -/
theorem intText_ne_cons {n : Int} {c : Char} (hc : c ≠ '-' ∧ c.isDigit = false) (cs : List Char) :
    intText n ≠ c :: cs := fun h => by
  rcases mem_intText (h ▸ List.mem_cons_self) with hminus | hdigit
  · exact hc.1 hminus
  · simp [hc.2] at hdigit

/-- Null, truth values and integers are told apart by their words. -/
theorem Integral.eq_of_isWord {i j : Json} (hi : i.Integral) (hj : j.Integral) (hword : IsWord i)
    (h : chars i = chars j) : i = j := by
  have hword' := isWord_of_chars_eq hword h
  cases hi with
  | null =>
    cases hj with
    | null => rfl
    | bool b => cases b <;> cases h
    | int => exact absurd h.symm (intText_ne_cons (by decide) _)
    | _ => exact hword'.elim
  | bool b =>
    cases hj with
    | null => cases b <;> cases h
    | bool c => cases b <;> cases c <;> first | rfl | cases h
    | int => cases b <;> exact absurd h.symm (intText_ne_cons (by decide) _)
    | _ => exact hword'.elim
  | int =>
    cases hj with
    | null => exact absurd h (intText_ne_cons (by decide) _)
    | bool c => cases c <;> exact absurd h (intText_ne_cons (by decide) _)
    | int => exact congrArg Json.int (intText_inj h)
    | _ => exact hword'.elim
  | _ => exact hword.elim

/-- Without doubles, the text of a document determines it. Induction on the first document; the
first character decides what the second one is. -/
theorem Integral.chars_inj {i j : Json} (hi : i.Integral) (hj : j.Integral)
    (h : chars i = chars j) : i = j := by
  have happend : chars j ++ [] = chars i ++ [] := by rw [h]
  induction hi generalizing j with
  | null => exact Integral.eq_of_isWord .null hj trivial h
  | bool b => exact Integral.eq_of_isWord (.bool b) hj trivial h
  | int hn => exact Integral.eq_of_isWord (.int hn) hj trivial h
  | string s =>
    obtain ⟨t, rfl⟩ := exists_string_of_leads (leads_of_cons happend)
    rw [(quote_append_inj (congrArg (· ++ []) h)).1]
  | @array items hitems ih =>
    have hleads : leads '[' j = true := by cases items <;> exact leads_of_cons happend
    obtain ⟨items', rfl⟩ := exists_array_of_leads hleads
    cases hj with
    | array hitems' =>
      have hall := chars_array_inj.1 h
      refine congrArg Json.array (List.forall₂_eq_eq_eq ▸ ?_)
      refine List.forall₂_iff_zip.2 ⟨hall.length_eq, fun {a b} hab => ?_⟩
      have hchars := List.forall₂_zip hall hab
      have hmem := List.of_mem_zip hab
      exact ih a hmem.1 (hitems' b hmem.2) hchars (by rw [hchars])
  | @object fields hfields ih =>
    have hleads : leads '{' j = true := by cases fields <;> exact leads_of_cons happend
    obtain ⟨fields', rfl⟩ := exists_object_of_leads hleads
    cases hj with
    | object hfields' =>
      have hall := chars_object_inj.1 h
      refine congrArg Json.object (List.forall₂_eq_eq_eq ▸ ?_)
      refine List.forall₂_iff_zip.2 ⟨hall.length_eq, fun {a b} hab => ?_⟩
      obtain ⟨hname, hchars⟩ := List.forall₂_zip hall hab
      have hmem := List.of_mem_zip hab
      exact Prod.ext hname (ih a hmem.1 (hfields' b hmem.2) hchars (by rw [hchars]))

/-! ## Keys -/

/-- The characters of the identity key of a document's value. -/
def keyChars : Json → List Char
  | .null => ['z', ':']
  | .bool b => 'b' :: ':' :: chars (.bool b)
  | .int n => 'n' :: ':' :: chars (.int n)
  | .float x => 'n' :: ':' :: Value.floatKey x
  | .string s => 's' :: ':' :: s.toList
  | .array items => 'j' :: ':' :: chars (.array items)
  | .object fields => 'j' :: ':' :: chars (.object fields)

/-- The first character of a key tells the kinds apart, and what follows the colon the documents of
a kind. -/
theorem Integral.keyChars_inj {i j : Json} (hi : i.Integral) (hj : j.Integral)
    (h : keyChars i = keyChars j) : i = j := by
  have hafter {c d : Char} {cs ds : List Char} (hcd : c :: ':' :: cs = d :: ':' :: ds) : cs = ds :=
    (List.cons.inj (List.cons.inj hcd).2).2
  cases hi with
  | null =>
    cases hj with
    | null => rfl
    | _ => cases h
  | bool b =>
    cases hj with
    | bool c => exact (Integral.bool b).chars_inj (.bool c) (hafter h)
    | _ => cases h
  | int hn =>
    cases hj with
    | int hn' => exact (Integral.int hn).chars_inj (.int hn') (hafter h)
    | _ => cases h
  | string s =>
    cases hj with
    | string t => rw [String.toList_inj.1 (hafter h)]
    | _ => cases h
  | array hitems =>
    cases hj with
    | array hitems' => exact (Integral.array hitems).chars_inj (.array hitems') (hafter h)
    | object hfields => exact (Integral.array hitems).chars_inj (.object hfields) (hafter h)
    | _ => cases h
  | object hfields =>
    cases hj with
    | array hitems => exact (Integral.object hfields).chars_inj (.array hitems) (hafter h)
    | object hfields' => exact (Integral.object hfields).chars_inj (.object hfields') (hafter h)
    | _ => cases h

/-! ## Reading back -/

theorem readBackItems_eq_map (items : List Json) : readBackItems items = items.map readBack := by
  induction items with
  | nil => rfl
  | cons j rest ih => rw [readBackItems, ih, List.map_cons]

theorem readBackFields_eq_map (fields : List (String × Json)) :
    readBackFields fields = fields.map fun e => (e.1, e.2.readBack) := by
  induction fields with
  | nil => rfl
  | cons e rest ih => rw [readBackFields, ih, List.map_cons]

theorem Integral.readBack {j : Json} (hj : j.Integral) : j.readBack.Integral := by
  induction hj with
  | null => exact .null
  | bool b => exact .bool b
  | int hn =>
    rw [Json.readBack, if_pos hn]
    exact .int hn
  | string s => exact .string s
  | array hitems ih =>
    rw [Json.readBack, readBackItems_eq_map]
    exact .array (List.forall_mem_map.2 ih)
  | object hfields ih =>
    rw [Json.readBack, readBackFields_eq_map]
    exact .object (Fields.forall_values_ofList (List.forall_mem_map.2 ih))

end Json

namespace Value

/-- The value is a copy of a document of integers that is read back as `j`. -/
def ReadsAs (old h : Heap) (j : Json) (x : Value) : Prop :=
  ∃ d, d.Integral ∧ IsCopy old h d x ∧ d.readBack = j

namespace ReadsAs

variable {old h : Heap} {j : Json} {x : Value}

theorem integral (hx : ReadsAs old h j x) : j.Integral := by
  obtain ⟨d, hd, -, rfl⟩ := hx
  exact hd.readBack

theorem toJson_eq (hx : ReadsAs old h j x) : toJson h x = j := by
  obtain ⟨d, -, ⟨h₀, -, rfl, he⟩, rfl⟩ := hx
  exact unfold_ofJson d he fun _ hc => nomatch hc

theorem of_array {items : List Json} (hx : ReadsAs old h (.array items) x) :
    ∃ r, x = .list r ∧ List.Forall₂ (ReadsAs old h) items (h.list r) := by
  obtain ⟨d, hd, hcopy, hj⟩ := hx
  cases hd with
  | array hitems =>
    rw [Json.readBack, Json.readBackItems_eq_map, Json.array.injEq] at hj
    subst hj
    obtain ⟨r, rfl, hcopies⟩ := hcopy.of_array
    refine ⟨r, rfl, List.forall₂_map_left_iff.2 ?_⟩
    refine ((List.forall₂_and_left _ _).2 ⟨hitems, hcopies⟩).imp fun d y hdy => ?_
    exact ⟨d, hdy.1, hdy.2, rfl⟩
  | int hn => rw [Json.readBack, if_pos hn] at hj; cases hj
  | _ => cases hj

theorem of_object {fields : List (String × Json)} (hx : ReadsAs old h (.object fields) x) :
    ∃ r, x = .map r ∧ ∀ name, Option.Rel (ReadsAs old h) (fields.lookup name)
      ((h.map r).get? name) := by
  obtain ⟨d, hd, ⟨h₀, hold, rfl, he⟩, hj⟩ := hx
  cases hd with
  | @object fields' hfields =>
    rw [ofJson_object] at he ⊢
    rw [Json.readBack, Json.readBackFields_eq_map, Json.object.injEq] at hj
    subst hj
    have hcopies := isCopy_ofFields fields' hold ((Heap.extends_newMap _ _).trans he)
    refine ⟨_, rfl, fun name => ?_⟩
    rw [he.map (by simp [Heap.newMap]), Heap.map_newMap]
    refine Fields.rel_get?_ofList (List.forall₂_map_left_iff.2 ?_) name
    refine ((List.forall₂_and_left _ _).2 ⟨hfields, hcopies⟩).imp fun d y hdy => ?_
    exact ⟨hdy.2.1, d.2, hdy.1, hdy.2.2, rfl⟩
  | int hn => rw [Json.readBack, if_pos hn] at hj; cases hj
  | _ => cases hj

/-- Outside of arrays and objects, the document determines the value. -/
theorem of_scalar (hx : ReadsAs old h j x) (hj : IsScalar (ofJson j {}).1) :
    x = (ofJson j {}).1 := by
  obtain ⟨d, hd, ⟨h₀, -, rfl, -⟩, rfl⟩ := hx
  cases hd with
  | int hn => rw [Json.readBack, if_pos hn]; rfl
  | array | object => exact hj.elim
  | _ => rfl

/-- What is read back from a value determines its key. -/
theorem identityKey_eq (hx : ReadsAs old h j x) : (identityKey h x).toList = j.keyChars := by
  have hjson := hx.toJson_eq
  obtain ⟨d, hd, ⟨h₀, -, rfl, -⟩, rfl⟩ := hx
  cases hd with
  | null => simp [ofJson, identityKey, Json.readBack, Json.keyChars]
  | bool b =>
    simp only [ofJson, identityKey, Json.readBack, Json.keyChars]
    cases b <;> simp only [Json.chars] <;> decide
  | @int n hn =>
    have hvalue : (ofJson (.int n) h₀).1 = .int (Int64.ofInt n) := if_pos hn
    rw [hvalue, Json.readBack, if_pos hn, identityKey,
      Int64.toInt_ofInt_of_le hn.1 (Int.lt_of_le_of_lt hn.2 (by decide))]
    simp [Json.keyChars, Json.chars]
  | string s => simp [ofJson, identityKey, Json.readBack, Json.keyChars]
  | array hitems =>
    rw [ofJson_array] at hjson ⊢
    rw [identityKey, hjson, Json.readBack]
    simp [Json.render, Json.keyChars]
  | object hfields =>
    rw [ofJson_object] at hjson ⊢
    rw [identityKey, hjson, Json.readBack]
    simp [Json.render, Json.keyChars]

end ReadsAs

theorem rel_of_common {α β : Type} {r : α → β → Prop} {o : Option α} {p q : Option β}
    (hp : Option.Rel r o p) (hq : Option.Rel r o q) :
    Option.Rel (fun x y => ∃ a, r a x ∧ r a y) p q := by
  cases hp with
  | none =>
    cases hq with
    | none => exact .none
  | some hx =>
    cases hq with
    | some hy => exact .some ⟨_, hx, hy⟩

/-- Maps look alike if every name has related values in both or none in either. -/
theorem Matched.of_rel {h : Heap} {R : Value → Value → Prop} {a b : MapRef}
    (hrel : ∀ name, Option.Rel R ((h.map a).get? name) ((h.map b).get? name)) :
    Matched h R (.map a) (.map b) := by
  refine .map (fun name => ?_) fun name x y hx hy => ?_
  · have hname := hrel name
    rw [Fields.mem_keys, Fields.mem_keys]
    generalize (h.map a).get? name = p, (h.map b).get? name = q at hname
    cases hname <;> simp
  · have hname := hrel name
    rw [hx, hy] at hname
    cases hname with
    | some hxy => exact hxy

/-- Values that are read back alike look alike one level deep. -/
theorem isBisimulation_readsAs (old h : Heap) :
    IsBisimulation h fun x y => ∃ j, ReadsAs old h j x ∧ ReadsAs old h j y := by
  rintro x y ⟨j, hx, hy⟩
  cases j with
  | array items =>
    obtain ⟨a, rfl, ha⟩ := hx.of_array
    obtain ⟨b, rfl, hb⟩ := hy.of_array
    refine .list (List.forall₂_iff_get.2 ⟨ha.length_eq.symm.trans hb.length_eq, ?_⟩)
    intro i hi hi'
    have hj : i < items.length := ha.length_eq ▸ hi
    exact ⟨items[i], ha.get hj hi, hb.get hj hi'⟩
  | object fields =>
    obtain ⟨a, rfl, ha⟩ := hx.of_object
    obtain ⟨b, rfl, hb⟩ := hy.of_object
    exact .of_rel fun name => rel_of_common (ha name) (hb name)
  | int n =>
    have hn : Int64.minValue.toInt ≤ n ∧ n ≤ Int64.maxValue.toInt := by
      cases hx.integral with
      | int hn => exact hn
    have hvalue : (ofJson (.int n) {}).1 = .int (Int64.ofInt n) := if_pos hn
    have hscalar : IsScalar (ofJson (.int n) {}).1 := by
      rw [hvalue]
      trivial
    obtain rfl := hx.of_scalar hscalar
    obtain rfl := hy.of_scalar hscalar
    exact .scalar (by simp [hvalue, scalarEqual])
  | float z => exact nomatch hx.integral
  | null | bool | string =>
    obtain rfl := hx.of_scalar trivial
    obtain rfl := hy.of_scalar trivial
    exact .scalar (by simp [ofJson, scalarEqual])

/-- Documents with one key have structurally equal copies, in any heap. -/
theorem structEq_of_keyChars {d₁ d₂ : Json} (hd₁ : d₁.Integral) (hd₂ : d₂.Integral)
    (hkey : d₁.readBack.keyChars = d₂.readBack.keyChars) {old h : Heap} {v₁ v₂ : Value}
    (h₁ : IsCopy old h d₁ v₁) (h₂ : IsCopy old h d₂ v₂) : structEq h v₁ v₂ = true := by
  have hread := hd₁.readBack.keyChars_inj hd₂.readBack hkey
  exact (isBisimulation_readsAs old h).equalBelow
    ⟨d₁.readBack, ⟨d₁, hd₁, h₁, rfl⟩, d₂, hd₂, h₂, hread.symm⟩

end Value

namespace ToUnique

open Value

/-- The value is a copy of a document of integers. -/
def Keyed (h : Heap) (d : Json) (v : Value) : Prop := d.Integral ∧ IsCopy {} h d v

theorem Keyed.toList_identityKey {h : Heap} {d : Json} {v : Value} (hv : Keyed h d v) :
    (identityKey h v).toList = d.readBack.keyChars :=
  ReadsAs.identityKey_eq ⟨d, hv.1, hv.2, rfl⟩

/-- The window remembers only keys of documents that were seen. -/
def Recalls (w : Window) (seen : List Json) : Prop :=
  ∀ key, w.contains key = true → ∃ d ∈ seen, ∃ h v, Keyed h d v ∧ identityKey h v = key

theorem Recalls.accept {w : Window} {seen : List Json} (hw : Recalls w seen) {h : Heap} {d : Json}
    {v : Value} (hv : Keyed h d v) : Recalls (w.accept (identityKey h v)).2 (seen ++ [d]) := by
  intro key hkey
  rcases Window.contains_accept hkey with rfl | hkey
  · exact ⟨d, by simp, h, v, hv, rfl⟩
  · obtain ⟨d', hd', hkeyed⟩ := hw key hkey
    exact ⟨d', List.mem_append_left _ hd', hkeyed⟩

/-- An element is dropped for a document with the same key, which was seen before the passes or is
the key of an earlier one. -/
theorem exists_seen_of_dropped {sc : Scope} {key : Operand} {kind : String} {capacity i : Nat}
    {s t : State} {passes : List Pass} {w : Window} {seen docs : List Json}
    (hreads : ∀ s o, sc.eval key s = .ended o → s.Untouched o.state)
    (hpasses : Passes sc Env.item key (collector kind capacity) i s passes t)
    (hw : s.windows.get? kind = some w) (hseen : Recalls w seen)
    (hdocs : List.Forall₂ (fun r d => Keyed r.finish.heap d r.result) passes docs) {k : Nat}
    {r : Pass} {d : Json} (hr : passes[k]? = some r) (hd : docs[k]? = some d)
    (hdropped : (collector kind capacity).keptIn r = []) :
    d.Integral ∧ ∃ d' ∈ seen ++ docs.take k, d'.Integral ∧
      d.readBack.keyChars = d'.readBack.keyChars := by
  induction hpasses generalizing w seen docs k with
  | done => simp at hr
  | @next i s u r₀ rest hstart heval _ _ ih =>
    obtain ⟨hkept, hnext⟩ := collect hreads hstart heval hw
    cases hdocs with
    | @cons _ d₀ _ docs hkeyed hdocs =>
      cases k with
      | zero =>
        obtain rfl : r₀ = r := by simpa using hr
        obtain rfl : d₀ = d := by simpa using hd
        -- The window refused the key, so that it remembers it.
        have hcontains : w.contains r₀.key = true := by
          by_contra hnew
          rw [hkept, if_pos ((Window.accept_fst_iff w r₀.key).2 hnew)] at hdropped
          cases hdropped
        obtain ⟨d', hd', h, v, hv, hsame⟩ := hseen r₀.key hcontains
        refine ⟨hkeyed.1, d', by simpa using hd', hv.1, ?_⟩
        rw [← hv.toList_identityKey, hsame, Pass.key, hkeyed.toList_identityKey]
      | succ k =>
        have hw' : ((collector kind capacity).next r₀.result r₀.finish).windows.get? kind =
            some (w.accept r₀.key).2 := by
          rw [hnext, Fields.get?_set, if_pos rfl]
        obtain ⟨hintegral, d', hd', hsame⟩ := ih hw' (hseen.accept hkeyed) hdocs
          (by simpa using hr) (by simpa using hd)
        exact ⟨hintegral, d', by simpa using hd', hsame⟩

end ToUnique

open Value ToUnique in
/-- For documents whose numbers are integers of 64 bits, equal keys mean structurally equal values.
So if the window of a kind remembers keys of such documents only, and the key of each element is
such a document, then `toUnique` drops an element only if its key is structurally equal to one that
was seen before: whatever copies of the two documents there are in a heap, they are equal. -/
theorem structEq_of_identityKey_eq :
    (∀ h d₁ d₂ v₁ v₂, Keyed h d₁ v₁ → Keyed h d₂ v₂ → identityKey h v₁ = identityKey h v₂ →
      structEq h v₁ v₂ = true) ∧
    ∀ (reg : Registry) (key : Json) (depth : Nat) (env : MapRef) (kind : String) (capacity : Nat)
      (s t : State) (passes : List Pass) (w : Window) (seen docs : List Json),
      reg.IsBuiltin → key.ReadOnly →
      Passes (reg.scope (·.evaluate depth) env) Env.item (.ofForm key) (collector kind capacity) 0
        s passes t →
      s.windows.get? kind = some w → Recalls w seen →
      List.Forall₂ (fun r d => Keyed r.finish.heap d r.result) passes docs →
      ∀ (k : Nat) (r : Pass) (d : Json), passes[k]? = some r → docs[k]? = some d →
        (collector kind capacity).keptIn r = [] →
        ∃ d' ∈ seen ++ docs.take k, ∀ h v v', IsCopy {} h d v → IsCopy {} h d' v' →
          structEq h v v' = true := by
  refine ⟨fun h d₁ d₂ v₁ v₂ h₁ h₂ hkey => ?_, ?_⟩
  · refine structEq_of_keyChars h₁.1 h₂.1 ?_ h₁.2 h₂.2
    rw [← h₁.toList_identityKey, hkey, h₂.toList_identityKey]
  · intro reg key depth env kind capacity s t passes w seen docs hreg hkey hpasses hw hseen hdocs k
      r d hr hd hdropped
    obtain ⟨hintegral, d', hd', hintegral', hsame⟩ :=
      exists_seen_of_dropped (untouched_eval hreg hkey depth env) hpasses hw hseen hdocs hr hd
        hdropped
    exact ⟨d', hd', fun h v v' => structEq_of_keyChars hintegral hintegral' hsame⟩

namespace EqualRows

/-- Two lists of the one document `row`, and a list `xs` of both. -/
def entry : State :=
  { heap := { lists := #[[.int 1], [.int 1], [.list ⟨0⟩, .list ⟨1⟩]]
              maps := #[.ofList [("xs", .list ⟨2⟩)]] }
    windows := .ofList [("k", { capacity := 3 })] }

def row : Json := .array [.int 1]

def first : Pass :=
  { item := .list ⟨0⟩
    start := entry.bound ⟨0⟩ Env.item 0 (.list ⟨0⟩)
    result := .list ⟨0⟩
    finish := entry.bound ⟨0⟩ Env.item 0 (.list ⟨0⟩) }

def afterFirst : State := (ToUnique.collector "k" 3).next first.result first.finish

def second : Pass :=
  { item := .list ⟨1⟩
    start := afterFirst.bound ⟨0⟩ Env.item 1 (.list ⟨1⟩)
    result := .list ⟨1⟩
    finish := afterFirst.bound ⟨0⟩ Env.item 1 (.list ⟨1⟩) }

theorem passes_rows : Passes (Registry.builtin.scope (·.evaluate 8) ⟨0⟩) Env.item
    (.ofForm (.string "$.item")) (ToUnique.collector "k" 3) 0 entry [first, second]
    ((ToUnique.collector "k" 3).next second.result second.finish) :=
  .next rfl rfl rfl (.next rfl rfl rfl .done)

theorem integral_row : row.Integral := .array (by simpa using .int (by decide))

theorem extends_of_lists {xs : Array (List Value)} {h : Heap}
    (hlists : xs.toList <+: h.lists.toList) : Heap.Extends { lists := xs } h :=
  ⟨hlists, List.nil_prefix, List.nil_prefix, List.nil_prefix⟩

theorem keyed_first {h : Heap} (hlists : [[.int 1]] <+: h.lists.toList) :
    ToUnique.Keyed h row (.list ⟨0⟩) :=
  ⟨integral_row, {}, .refl _, rfl, extends_of_lists hlists⟩

theorem keyed_second {h : Heap} (hlists : [[.int 1], [.int 1]] <+: h.lists.toList) :
    ToUnique.Keyed h row (.list ⟨1⟩) :=
  ⟨integral_row, { lists := #[[.int 1]] }, extends_of_lists List.nil_prefix, rfl,
    extends_of_lists hlists⟩

/-- The two lists are equal, and the second is dropped for the first. -/
theorem structEq_rows :
    Value.structEq entry.heap (.list ⟨0⟩) (.list ⟨1⟩) = true ∧
      (ToUnique.collector "k" 3).keptIn second = [] ∧
      ∃ d ∈ [row], ∀ h v v', Value.IsCopy {} h row v → Value.IsCopy {} h d v' →
        Value.structEq h v v' = true := by
  have hfirst : ToUnique.Keyed entry.heap row (.list ⟨0⟩) := keyed_first ⟨_, rfl⟩
  have hsecond : ToUnique.Keyed entry.heap row (.list ⟨1⟩) := keyed_second ⟨_, rfl⟩
  have hkeys : Value.identityKey entry.heap (.list ⟨0⟩) =
      Value.identityKey entry.heap (.list ⟨1⟩) :=
    String.toList_inj.1 (hfirst.toList_identityKey.trans hsecond.toList_identityKey.symm)
  have hdropped : (ToUnique.collector "k" 3).keptIn second = [] := by cbv
  have hseen : ToUnique.Recalls { capacity := 3 } [] := fun key hkey => by
    simp [Window.contains] at hkey
  have hdocs : List.Forall₂ (fun r d => ToUnique.Keyed r.finish.heap d r.result) [first, second]
      [row, row] :=
    .cons (keyed_first ⟨_, rfl⟩) (.cons (keyed_second ⟨_, rfl⟩) .nil)
  refine ⟨structEq_of_identityKey_eq.1 _ _ _ _ _ hfirst hsecond hkeys, hdropped, ?_⟩
  exact structEq_of_identityKey_eq.2 .builtin (.string "$.item") 8 ⟨0⟩ "k" 3 entry _ _ _ [] _ rfl
    (.string _) passes_rows rfl hseen hdocs 1 second row rfl rfl hdropped

end EqualRows

end Sigil
