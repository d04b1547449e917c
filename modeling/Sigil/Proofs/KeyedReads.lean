import Sigil.Proofs.Numeral
import Sigil.Proofs.PathSpelling
import Sigil.Proofs.ShorthandOperands
import Sigil.Proofs.Termination

/-!
# Keys after a path and in its brackets

`get` follows the keys that are given after its path, and a path follows the keys that stand in
brackets at its end. The one goes on with null where a value is missing and asks at the end whether
there is anything, the other stops there; and the keys are integers in the one and their numerals in
the other. Both read what `Heap.descend` leads to, or else the default. That is the same unless the
keys lead to an object of the embedder with a member that has a numeral for its name
(`get_keys_eq_get_brackets`): an integer selects no member of an object, and its numeral may
(`get_numeral_member`).
-/

namespace Sigil

/-! ## Integers and their numerals as keys -/

/-- The numeral of a key. -/
def keyText (n : Int64) : String := String.ofList (Json.intText n.toInt)

variable {n : Int64}

theorem mem_keyText {c : Char} (hc : c ∈ (keyText n).toList) :
    c = '-' ∨ c.isDigit = true := by
  rw [keyText, String.toList_ofList] at hc
  exact Json.mem_intText hc

theorem keyText_ne {c : Char} {name : String} (hc : c ∈ name.toList) (hminus : c ≠ '-')
    (hdigit : c.isDigit = false) (n : Int64) : keyText n ≠ name := by
  rintro rfl
  rcases mem_keyText hc with hc | hc
  · exact hminus hc
  · rw [hdigit] at hc
    cases hc

/-- A numeral is a word, so it stands for itself in brackets. -/
theorem isWord_keyText (n : Int64) : Path.IsWord (keyText n) where
  isName := by
    refine ⟨fun hnil => ?_, fun c hc => ?_⟩
    · have hread := Json.readInt?_intText n.toInt
      rw [keyText, String.toList_ofList] at hnil
      rw [hnil] at hread
      cases hread
    · rcases mem_keyText hc with rfl | hdigit
      · decide
      · simp only [Path.isNameChar, Bool.and_eq_true, decide_eq_true_eq]
        refine ⟨⟨⟨?_, ?_⟩, ?_⟩, ?_⟩ <;> rintro rfl <;> cases hdigit
  noPath := fun hhead => by
    rcases mem_keyText (List.mem_of_head? hhead) with hc | hc <;> cases hc
  noComparison := by
    refine Shorthand.comparison?_eq_none (fun hc => ?_) fun hc => ?_
    all_goals rcases mem_keyText hc with hc | hc <;> cases hc

/-- Only objects of the embedder have members with numerals for their names. -/
theorem Native.member?_keyText {obj : Native}
    (hobj : ∀ o, obj = .embedded o → o.member? (keyText n) = none) (r : NativeRef) :
    obj.member? r (keyText n) = none := by
  have hcancel : keyText n ≠ "cancel" := keyText_ne (c := 'c') (by decide) (by decide) rfl n
  have hcancelled : keyText n ≠ "cancelled" := keyText_ne (c := 'c') (by decide) (by decide) rfl n
  have hticks : keyText n ≠ "ticks" := keyText_ne (c := 't') (by decide) (by decide) rfl n
  have hid : keyText n ≠ "insertedId" := keyText_ne (c := 'i') (by decide) (by decide) rfl n
  have hmatched : keyText n ≠ "matched" := keyText_ne (c := 'm') (by decide) (by decide) rfl n
  cases obj with
  | embedded o => exact hobj o rfl
  | timer | insertResult | replaceResult =>
    simp [member?, hcancel, hcancelled, hticks, hid, hmatched]

/-- An integer selects the same member as its numeral, unless an object of the embedder has such a
member. -/
theorem Value.member_int {v : Value} {h : Heap}
    (hv : ∀ r o, v = .native r → h.native r = .embedded o → o.member? (keyText n) = none) :
    v.member h (.int n) = v.member h (.string (keyText n)) := by
  cases v with
  | list r => simp only [member, index?, keyText, String.toList_ofList, Json.readWord?_intText]
  | map r => rfl
  | native r =>
    have hnone := Native.member?_keyText (fun o => hv r o rfl) r
    change none = nativeMember h r (keyText n)
    rw [nativeMember, hnone]
    rfl
  | _ => rfl

namespace Heap

theorem descend_append (h : Heap) (v : Value) (keys more : List Value) :
    h.descend v (keys ++ more) =
      match h.descend v keys with
      | (some w, h') => h'.descend w more
      | (none, h') => (none, h') := by
  induction keys generalizing h v with
  | nil => rfl
  | cons key keys ih =>
    rw [List.cons_append, descend, descend]
    split
    · split
      · rfl
      · exact ih _ _
    · rfl

/-- No object of the embedder to which the keys lead has a member that the numeral of the next key
names. -/
def NoNumerals (h : Heap) (v : Value) (keys : List Int64) : Prop :=
  ∀ before k after r h' o, keys = before ++ k :: after →
    h.descend v (before.map .int) = (some (.native r), h') → h'.native r = .embedded o →
    o.member? (keyText k) = none

theorem NoNumerals.tail {h h' : Heap} {v x : Value} {key : Int64} {keys : List Int64}
    (hfree : h.NoNumerals v (key :: keys)) (hm : v.member h (.int key) = some (x, h'))
    (hx : x.isNull = false) : h'.NoNumerals x keys := by
  intro before k after r h'' o hkeys hdescend
  refine hfree (key :: before) k after r h'' o (by rw [hkeys, List.cons_append]) ?_
  simpa [descend, hm, hx] using hdescend

theorem descend_ints {h : Heap} {v : Value} {keys : List Int64} (hfree : h.NoNumerals v keys) :
    h.descend v (keys.map .int) = h.descend v (keys.map fun k => .string (keyText k)) := by
  induction keys generalizing h v with
  | nil => rfl
  | cons key keys ih =>
    have hmember := Value.member_int (n := key) (v := v) (h := h) fun r o hv hobj =>
      hfree [] key keys r h o rfl (by rw [hv]; rfl) hobj
    simp only [List.map_cons, descend, ← hmember]
    split
    · rename_i x h' hm
      split
      · rfl
      · rename_i hx
        exact ih (hfree.tail hm (by simpa using hx))
    · rfl

/-- The same where other keys come first, and nothing is asked if they lead nowhere. -/
theorem descend_append_ints {h h' : Heap} {v : Value} {w? : Option Value} {front : List Value}
    {keys : List Int64} (hfront : h.descend v front = (w?, h'))
    (hfree : ∀ w ∈ w?, h'.NoNumerals w keys) :
    h.descend v (front ++ keys.map .int) =
      h.descend v (front ++ keys.map fun k => .string (keyText k)) := by
  rw [descend_append, descend_append, hfront]
  cases w? with
  | none => rfl
  | some w => exact descend_ints (hfree w rfl)

/-- An integer leads no further from a native object. -/
theorem descend_append_int_of_native {h h' : Heap} {v : Value} {r : NativeRef}
    {front : List Value} (hfront : h.descend v front = (some (.native r), h')) (key : Int64)
    (more : List Value) : (h.descend v (front ++ .int key :: more)).1 = none := by
  rw [descend_append, hfront]
  rfl

theorem descend_null (h : Heap) (keys : List Value) :
    (h.descend .null keys).1.getD .null = .null ∧ (h.descend .null keys).2 = h := by
  cases keys <;> exact ⟨rfl, rfl⟩

/-- Keys lead from a value that is not null to such a value. -/
theorem isNull_of_descend {h : Heap} {v w : Value} {keys : List Value} (hv : v.isNull = false)
    (hw : (h.descend v keys).1 = some w) : w.isNull = false := by
  induction keys generalizing h v with
  | nil => exact Option.some.inj hw ▸ hv
  | cons key keys ih =>
    rw [descend] at hw
    split at hw
    · split at hw
      · cases hw
      · rename_i hx
        exact ih (by simpa using hx) hw
    · cases hw

end Heap

/-! ## Reading -/

namespace Operators

/-- A key given to `get`. -/
def keyOperand (n : Int64) : Operand := .ofForm (.int n.toInt)

/-- The default that is given to `get` at the end, if there is one. -/
def defaultOperand (fallback? : Option String) : Option Operand :=
  fallback?.map fun text => .ofForm (.string text)

theorem splitDefault_keys (keys : List Int64) (fallback? : Option String) :
    splitDefault (keys.map keyOperand ++ (defaultOperand fallback?).toList) =
      (keys.map keyOperand, defaultOperand fallback?) := by
  induction keys with
  | nil => cases fallback? <;> rfl
  | cons key keys ih =>
    cases hrest : keys.map keyOperand ++ (defaultOperand fallback?).toList with
    | nil =>
      obtain ⟨hkeys, hdefault⟩ := List.append_eq_nil_iff.1 hrest
      rw [List.map_cons, List.cons_append, hrest, hkeys, Option.toList_eq_nil_iff.1 hdefault]
      rfl
    | cons o rest =>
      rw [hrest] at ih
      rw [List.map_cons, List.cons_append, hrest, splitDefault, ih]
      simp

section Follow

variable {sc : Scope} {args : List Operand} {keys : List Value}

/-- Where a member is missing, following goes on with null and ends with null. -/
theorem member?_follow
    (hfollow : ∀ v s, follow sc args v s =
      .ended ⟨.ok ((s.heap.descend v keys).1.getD .null),
        { s with heap := (s.heap.descend v keys).2 }⟩) (v key : Value) (s : State) :
    (EvalM.member? v key >>= fun next => follow sc args (next.getD .null)) s =
      .ended ⟨.ok ((s.heap.descend v (key :: keys)).1.getD .null),
        { s with heap := (s.heap.descend v (key :: keys)).2 }⟩ := by
  have hnull (s : State) : follow sc args .null s = .ended ⟨.ok .null, s⟩ := by
    obtain ⟨hvalue, hheap⟩ := s.heap.descend_null keys
    rw [hfollow, hvalue, hheap]
  cases hm : v.member s.heap key with
  | none =>
    refine (EvalM.bind_of_ok (EvalM.member?_of_none hm)).trans ?_
    simp only [Heap.descend, hm]
    exact hnull s
  | some found =>
    obtain ⟨x, h⟩ := found
    refine (EvalM.bind_of_ok (EvalM.member?_of_some hm)).trans ?_
    simp only [Heap.descend, hm]
    split
    · rename_i hx
      rw [Value.eq_null_of_isNull hx]
      exact hnull _
    · exact hfollow x _

theorem follow_eq_descend (hkeys : List.Forall₂ (fun o key => sc.eval o = pure key) args keys)
    (v : Value) (s : State) :
    follow sc args v s = .ended ⟨.ok ((s.heap.descend v keys).1.getD .null),
      { s with heap := (s.heap.descend v keys).2 }⟩ := by
  induction hkeys generalizing v s with
  | nil => rfl
  | @cons o key args keys hkey _ ih =>
    refine (EvalM.bind_of_ok (congrFun hkey s)).trans ?_
    exact member?_follow ih v key s

/-- A default that fails ends `get` before its path is read. -/
theorem get_of_default_error {rest : List Operand} {default? : Option Operand} {e : EvalError}
    {s t : State} (hsplit : splitDefault rest = (args, default?))
    (hdefault : evalDefault sc default? s = .ended ⟨.error e, t⟩) (path : Operand) :
    get sc (path :: rest) s = .ended ⟨.error e, t⟩ := by
  rw [get, hsplit]
  exact EvalM.bind_of_error hdefault

/-- From the place where its path ends, `get` goes on with its keys; where the path leads nowhere,
it gives the default. -/
theorem get_of_resolve {path : Operand} {rest : List Operand} {default? : Option Operand}
    {parent? : Option Value} {key d : Value} {s t u : State}
    (hsplit : splitDefault rest = (args, default?))
    (hkeys : List.Forall₂ (fun o key => sc.eval o = pure key) args keys)
    (hdefault : evalDefault sc default? s = .ended ⟨.ok d, t⟩)
    (hresolve : sc.resolve path t = .ended ⟨.ok (.inside key parent?), u⟩) :
    let found := match parent? with
      | some parent => u.heap.descend parent (key :: keys)
      | none => (none, u.heap)
    get sc (path :: rest) s =
      .ended ⟨.ok (if (found.1.getD .null).isNull then d else found.1.getD .null),
        { u with heap := found.2 }⟩ := by
  intro found
  rw [get, hsplit]
  refine (EvalM.bind_of_ok hdefault).trans ?_
  refine (EvalM.bind_of_ok hresolve).trans ?_
  cases parent? with
  | none => rfl
  | some parent =>
    have hread := member?_follow (follow_eq_descend hkeys) parent key u
    have hassoc := EvalM.bind_assoc (EvalM.member? parent key)
      (fun next => follow sc args (next.getD .null)) (fun v => pure (if v.isNull then d else v))
    exact (congrFun hassoc u).symm.trans (EvalM.bind_of_ok hread)

end Follow

/-- Null and nothing at all give the default. -/
theorem getD_of_isNull {x? : Option Value} (hx : ∀ x ∈ x?, x.isNull = false) (d : Value) :
    (if (x?.getD .null).isNull then d else x?.getD .null) = x?.getD d := by
  cases x? with
  | none => rfl
  | some x => simp [hx x rfl]

end Operators

namespace Registry

open Sigil.Path

variable {reg : Registry}

theorem invoke_get (hreg : reg.HasBuiltin) (ev : Registry → Evaluator) (env : MapRef)
    (path : Operand) (rest : List Operand) :
    reg.invoke ev env "get" (path :: rest) = Operators.get (reg.scope ev env) (path :: rest) := by
  have hget := hreg "get" _ operator?_get
  have hcheck : Arity.check "get" (.between 1 none) (path :: rest).length = .ok () := by
    simp [Arity.check]
  rw [invoke, hget]
  simp only [hcheck]
  rfl

theorem eval_keyOperand (depth : Nat) (env : MapRef) (n : Int64) :
    (reg.scope (·.evaluate (depth + 1)) env).eval (Operators.keyOperand n) = pure (.int n) := by
  have hint : Value.ofInt n.toInt = .int n := by
    rw [Value.ofInt, if_pos ⟨Int64.minValue_le_toInt n, Int64.toInt_le n⟩, Int64.ofInt_toInt]
  funext s
  change Course.ended (Outcome.mk (.ok (Value.ofInt n.toInt)) s) = _
  rw [hint]
  rfl

section Reading

variable (hvalues : reg.values = .empty) (depth : Nat) (env : MapRef)

include hvalues

theorem named_of_empty (name : String) :
    (reg.scope (·.evaluate (depth + 1)) env).named name = .string name := by
  change (reg.values.get? name).getD (.string name) = _
  rw [hvalues]
  rfl

/-- With a default at hand, `get` reads what the segments of its path and the keys after it lead
to. -/
theorem get_ofSpellings {spellings : List Spelling} (hwf : ∀ sp ∈ spellings, sp.WellFormed)
    (keys : List Int64) {fallback? : Option String} {d : Value} {s t : State}
    (hdefault : Operators.evalDefault (reg.scope (·.evaluate (depth + 1)) env)
      (Operators.defaultOperand fallback?) s = .ended ⟨.ok d, t⟩) :
    let found := t.heap.descend (.map env)
      (spellings.map (fun sp => .string sp.body) ++ keys.map .int)
    Operators.get (reg.scope (·.evaluate (depth + 1)) env)
        (.ofForm (.string (ofSpellings spellings)) ::
          (keys.map Operators.keyOperand ++ (Operators.defaultOperand fallback?).toList)) s =
      .ended ⟨.ok (found.1.getD d), { t with heap := found.2 }⟩ := by
  intro found
  have hkeys : List.Forall₂
      (fun o key => (reg.scope (·.evaluate (depth + 1)) env).eval o = pure key)
      (keys.map Operators.keyOperand) (keys.map Value.int) := by
    rw [List.forall₂_map_left_iff, List.forall₂_map_right_iff]
    exact List.forall₂_same.2 fun n _ => eval_keyOperand depth env n
  have hend : ∀ x ∈ found.1, x.isNull = false := fun x hx =>
    Heap.isNull_of_descend (v := .map env) rfl hx
  have hsplit := Operators.splitDefault_keys keys fallback?
  rw [← Operators.getD_of_isNull hend d]
  rcases List.eq_nil_or_concat spellings with rfl | ⟨front, last, hspellings⟩
  · -- The path is the sigil alone, which is the environment rather than a place in it.
    rw [Operators.get, hsplit]
    refine (EvalM.bind_of_ok hdefault).trans ?_
    refine (EvalM.bind_of_ok rfl).trans ?_
    refine (EvalM.bind_of_ok rfl).trans ?_
    exact EvalM.bind_of_ok (Operators.follow_eq_descend hkeys _ t)
  · subst hspellings
    rw [List.concat_eq_append] at hwf ⊢
    have hresolve := reg.resolve_ofSpellings (by rw [hvalues]; exact fun _ _ hv => nomatch hv) hwf
      depth env t
    simp only [reg.named_of_empty hvalues depth env] at hresolve
    have hfound : found = match t.heap.descend (.map env) (front.map fun sp => .string sp.body) with
        | (some w, h) => h.descend w (.string last.body :: keys.map .int)
        | (none, h) => (none, h) := by
      rw [← Heap.descend_append]
      simp [found]
    obtain ⟨⟨parent?, h⟩, hfront⟩ : ∃ p,
        t.heap.descend (.map env) (front.map fun sp => .string sp.body) = p := ⟨_, rfl⟩
    rw [hfront] at hresolve hfound
    rw [Operators.get_of_resolve hsplit hkeys hdefault hresolve, hfound]
    cases parent? <;> rfl

end Reading

end Registry

/-- Keys in brackets at the end of a path, such as `[2][-1]`. -/
def Path.brackets (keys : List Int64) : String :=
  String.ofList (keys.flatMap fun n => '[' :: (keyText n).toList ++ [']'])

theorem Path.ofNames_eq_ofSpellings (names : List String) :
    ofNames names = ofSpellings (names.map .point) := by
  rw [ofNames, ofSpellings, List.flatMap_map]
  rfl

theorem Path.ofNames_append_brackets (names : List String) (keys : List Int64) :
    ofNames names ++ brackets keys =
      ofSpellings (names.map .point ++ keys.map fun n => .bracket (keyText n)) := by
  rw [ofNames_eq_ofSpellings, brackets, ofSpellings, ofSpellings, ← String.ofList_append,
    List.cons_append, List.flatMap_append, List.flatMap_map fun n => Spelling.bracket (keyText n)]
  rfl

/-- Integer keys after a path of names, and the same keys in brackets at its end: with the same
default, or with none, `get` reads what the names and the keys lead to, once as integers and once as
numerals, or else gives the default. It fails only if the default does. The two have one outcome if
no object of the embedder that they meet has a member named by a numeral. If the integers meet a
native object, they give the default. -/
theorem get_keys_eq_get_brackets (reg : Registry) (hreg : reg.HasBuiltin)
    (hvalues : reg.values = .empty) (names : List String)
    (hnames : ∀ name ∈ names, Path.IsName name) (keys : List Int64) (fallback? : Option String)
    (depth : Nat) (hdepth : ∀ text ∈ fallback?, text.toList.length < depth) (env : MapRef)
    (s : State) :
    let ev : Registry → Evaluator := (·.evaluate (depth + 1))
    let path := Path.ofNames names
    let default? := Operators.defaultOperand fallback?
    ∃ d t o o', Operators.evalDefault (reg.scope ev env) default? s = .ended ⟨d, t⟩ ∧
      reg.invoke ev env "get" (.ofForm (.string path) ::
        (keys.map Operators.keyOperand ++ default?.toList)) s = .ended o ∧
      reg.invoke ev env "get" (.ofForm (.string (path ++ Path.brackets keys)) ::
        default?.toList) s = .ended o' ∧
      o.result = d.map
        (t.heap.descend (.map env) (names.map .string ++ keys.map .int)).1.getD ∧
      o'.result = d.map
        (t.heap.descend (.map env) (names.map .string ++ keys.map (.string ∘ keyText))).1.getD ∧
      ∀ v? h, t.heap.descend (.map env) (names.map .string) = (v?, h) →
        ((∀ v ∈ v?, h.NoNumerals v keys) → o' = o) ∧
        ∀ v ∈ v?, ∀ before k after r h', keys = before ++ k :: after →
          h.descend v (before.map .int) = (some (.native r), h') → o.result = d := by
  intro ev path default?
  obtain ⟨⟨d, t⟩, hdefault⟩ :
      ∃ o, Operators.evalDefault (reg.scope ev env) default? s = .ended o := by
    cases fallback? with
    | none => exact ⟨_, rfl⟩
    | some text => exact exists_evaluate_operand hreg (Nat.succ_lt_succ (hdepth text rfl)) env s
  simp only [reg.invoke_get hreg]
  cases d with
  | error e =>
    have hfail (keys : List Int64) :=
      Operators.get_of_default_error (Operators.splitDefault_keys keys fallback?) hdefault
    exact ⟨.error e, t, _, _, hdefault, hfail keys _, hfail [] _, rfl, rfl,
      fun _ _ _ => ⟨fun _ => rfl, fun _ _ _ _ _ _ _ _ _ => rfl⟩⟩
  | ok d =>
    have hpoints : ∀ sp ∈ names.map Path.Spelling.point, sp.WellFormed := by
      simpa [Path.Spelling.WellFormed] using hnames
    have hbrackets : ∀ sp ∈ keys.map (fun n => Path.Spelling.bracket (keyText n)),
        sp.WellFormed := by
      simpa [Path.Spelling.WellFormed] using fun n _ => isWord_keyText n
    have hafter := reg.get_ofSpellings hvalues depth env hpoints keys hdefault
    have hinside := reg.get_ofSpellings hvalues depth env
      (List.forall_mem_append.2 ⟨hpoints, hbrackets⟩) [] hdefault
    rw [← Path.ofNames_append_brackets] at hinside
    rw [← Path.ofNames_eq_ofSpellings] at hafter
    simp only [List.map_append, List.map_map, Function.comp_def, Path.Spelling.body, List.map_nil,
      List.append_nil, List.nil_append] at hafter hinside
    refine ⟨.ok d, t, _, _, hdefault, hafter, hinside, rfl, rfl, fun v? h hfound => ⟨?_, ?_⟩⟩
    · intro hfree
      rw [Heap.descend_append_ints hfound hfree]
    · intro v hv before k after r h' hkeys hobject
      obtain rfl := Option.mem_def.1 hv
      have hmeets : t.heap.descend (.map env) (names.map .string ++ before.map .int) =
          (some (.native r), h') := by
        rw [Heap.descend_append, hfound]
        exact hobject
      rw [hkeys, List.map_append, List.map_cons, ← List.append_assoc,
        Heap.descend_append_int_of_native hmeets]
      rfl

namespace Rows

/-- A list with null and a list in it, which the environment has through an object. -/
def start : State :=
  { heap :=
    { lists := #[[.null, .list ⟨1⟩], [.int 5]]
      maps := #[.ofList [("table", .native ⟨0⟩)]]
      natives := #[.embedded { kind := "table"
                               member? := fun name =>
                                if name = "rows" then some (.held (.list ⟨0⟩)) else none }] } }

/-- Reads the rows with keys after the path, or in its brackets. -/
def readBoth (keys : List Int64) (after : List Operand) (inside : String) :
    Course Value × Course Value :=
  let get := fun args => Registry.builtin.invoke (·.evaluate 3) ⟨0⟩ "get" args start
  (get (.ofForm (.string "$.table.rows") :: (keys.map Operators.keyOperand ++ after)),
    get (.ofForm (.string inside) :: after))

theorem noNumerals {keys : List Int64} (hkeys : keys = [1, 0] ∨ keys = [0, -1]) :
    start.heap.NoNumerals (.list ⟨0⟩) keys := by
  intro before k after r h o heq hdescend
  rcases hkeys with rfl | rfl
  all_goals
    rcases before with _ | ⟨a, _ | ⟨b, rest⟩⟩
    · cases hdescend
    · obtain ⟨rfl, -⟩ := List.cons.inj heq
      cases hdescend
    · simp at heq

theorem get_rows :
    (∃ o, readBoth [1, 0] [] "$.table.rows[1][0]" = (.ended o, .ended o) ∧
        o.result = .ok (.int 5)) ∧
      ∃ o, readBoth [0, -1] [.ofForm (.string "d")] "$.table.rows[0][-1]" = (.ended o, .ended o) ∧
        o.result = .ok (.string "d") := by
  have hnames : ∀ name ∈ ["table", "rows"], Path.IsName name := by
    simp [Path.IsName, Path.isNameChar]
  have hread (keys : List Int64) (fallback? : Option String) :=
    get_keys_eq_get_brackets .builtin (fun _ _ h => h) rfl ["table", "rows"] hnames keys fallback? 2
  refine ⟨?_, ?_⟩
  · obtain ⟨d, t, o, o', hdefault, hafter, hinside, hresult, -, hsame⟩ :=
      hread [1, 0] none (by simp) ⟨0⟩ start
    obtain ⟨rfl, rfl⟩ := Outcome.mk.inj (Course.ended.inj hdefault)
    obtain rfl := (hsame (some (.list ⟨0⟩)) start.heap rfl).1 fun v hv =>
      Option.mem_some.1 hv ▸ noNumerals (.inl rfl)
    exact ⟨o', Prod.ext hafter hinside, hresult⟩
  · obtain ⟨d, t, o, o', hdefault, hafter, hinside, hresult, -, hsame⟩ :=
      hread [0, -1] (some "d") (by simp) ⟨0⟩ start
    obtain ⟨rfl, rfl⟩ := Outcome.mk.inj (Course.ended.inj hdefault)
    obtain rfl := (hsame (some (.list ⟨0⟩)) start.heap rfl).1 fun v hv =>
      Option.mem_some.1 hv ▸ noNumerals (.inr rfl)
    exact ⟨o', Prod.ext hafter hinside, hresult⟩

end Rows

namespace Numerals

/-- An object of the embedder with a member `0`. -/
def start : State :=
  { heap :=
    { maps := #[.ofList [("p", .native ⟨0⟩)]]
      natives := #[.embedded { kind := "pair"
                               member? := fun name =>
                                if name = "0" then some (.held (.int 7)) else none }] } }

/-- The key `0` finds nothing after the path, and the member in its brackets. -/
theorem get_numeral_member :
    Path.ofNames ["p"] = "$.p" ∧ Path.ofNames ["p"] ++ Path.brackets [0] = "$.p[0]" ∧
      Registry.builtin.values = .empty ∧
      Registry.builtin.invoke (·.evaluate 3) ⟨0⟩ "get"
          [.ofForm (.string "$.p"), Operators.keyOperand 0] start = .ended ⟨.ok .null, start⟩ ∧
      Registry.builtin.invoke (·.evaluate 3) ⟨0⟩ "get" [.ofForm (.string "$.p[0]")] start =
        .ended ⟨.ok (.int 7), start⟩ :=
  ⟨rfl, rfl, rfl, rfl, rfl⟩

end Numerals

end Sigil
