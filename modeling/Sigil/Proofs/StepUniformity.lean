import Sigil.Proofs.HeapGrowth
import Sigil.Proofs.OperatorUniformity

/-!
# A step of evaluation is uniform in the evaluator

One step evaluates the parts of a form: shorter texts for a text, items for an array, fields or
operands for an object (`Parts`). A uniform relation between two evaluators on the parts holds
between the two steps (`Uniform.step`). As a first use, evaluation keeps every invariant that
writing keeps (`keeps_evaluate`), so heaps grow under it. The operator that a step invokes is known,
and it finds the operands that it uses.
-/

namespace Sigil

/-! ## Operands of shorthand -/

theorem length_normalizePath_le (text : List Char) :
    (normalizePath text).length ≤ text.length + 1 := by
  unfold normalizePath
  split <;> simp

theorem normalizePath_of_ne {c : Char} (hc : c ≠ '.') (rest : List Char) :
    normalizePath (sigil :: c :: rest) = sigil :: '.' :: c :: rest := by
  simp [normalizePath, sigil, hc]

theorem normalizePath_eq_self {text : List Char}
    (htext : ∀ c rest, text = sigil :: c :: rest → c = '.') : normalizePath text = text := by
  unfold normalizePath
  split
  · rfl
  · rfl
  · rename_i rest hne hpoint
    cases rest with
    | nil => exact absurd rfl hne
    | cons c rest => exact absurd (congrArg (· :: rest) (htext c rest rfl)) (hpoint rest)
  · rfl

namespace Shorthand

theorem length_dropSpaces_le (cs : List Char) : (dropSpaces cs).length ≤ cs.length :=
  (List.dropWhile_suffix _).length_le

theorem length_of_relationAndRight? {cs right : List Char} {r : Relation}
    (h : relationAndRight? cs = some (r, right)) :
    r.symbol.length + right.length ≤ cs.length ∧ 0 < right.length := by
  obtain ⟨r', -, hr⟩ := List.exists_of_findSome?_eq_some h
  dsimp only at hr
  split_ifs at hr with hprefix hright
  obtain ⟨rfl, rfl⟩ := Prod.mk.inj (Option.some.inj hr)
  have hsymbol := (List.isPrefixOf_iff_prefix.1 hprefix).length_le
  have hspaces := length_dropSpaces_le cs
  have hdrop := length_dropSpaces_le ((dropSpaces cs).drop r'.symbol.length)
  rw [List.length_drop] at hdrop
  refine ⟨by omega, ?_⟩
  cases hcs : dropSpaces ((dropSpaces cs).drop r'.symbol.length) with
  | nil => simp [isRightOperand, hcs] at hright
  | cons => simp

theorem length_of_splitRelation? {cs : List Char} {b : Binary Relation}
    (h : splitRelation? cs = some b) :
    b.left.length + b.op.symbol.length + b.right.length ≤ cs.length ∧ 0 < b.right.length := by
  induction cs generalizing b with
  | nil => cases h
  | cons c cs ih =>
    unfold splitRelation? at h
    split at h
    · obtain rfl := Option.some.inj h
      rw [List.length_nil, Nat.zero_add]
      exact length_of_relationAndRight? ‹_›
    · split_ifs at h
      obtain ⟨b', hb', rfl⟩ := Option.map_eq_some_iff.1 h
      obtain ⟨hlen, hright⟩ := ih hb'
      refine ⟨?_, hright⟩
      simp only [List.length_cons]
      omega

theorem length_of_comparison? {cs : List Char} {b : Binary Relation} (h : comparison? cs = some b) :
    b.left.length + b.op.symbol.length + b.right.length ≤ cs.length ∧ 0 < b.left.length ∧
      0 < b.right.length := by
  cases cs with
  | nil => cases h
  | cons c cs =>
    simp only [comparison?] at h
    split_ifs at h
    obtain ⟨b', hb', rfl⟩ := Option.map_eq_some_iff.1 h
    obtain ⟨hlen, hright⟩ := length_of_splitRelation? hb'
    refine ⟨?_, by simp, hright⟩
    simp only [List.length_cons]
    omega

theorem length_of_arithmeticRight? {after right : List Char}
    (h : arithmeticRight? after = some right) : right.length < after.length ∧ 0 < right.length := by
  unfold arithmeticRight? at h
  split at h
  · rename_i hhead
    split at h
    · split at h
      · cases h
      · obtain rfl := Option.some.inj h
        simp only [List.length_singleton]
        omega
    · rename_i hne
      obtain rfl := Option.some.inj h
      refine ⟨?_, List.length_pos_iff.2 hne⟩
      cases after with
      | nil => cases hhead
      | cons c after =>
        obtain rfl : c = ' ' := by simpa using hhead
        have hdrop := length_dropSpaces_le after
        simp only [dropSpaces, List.dropWhile_cons, decide_true, if_true,
          List.length_cons] at hdrop ⊢
        omega
  · cases h

theorem length_of_arithmetic? {cs : List Char} {b : Binary Arith} (h : arithmetic? cs = some b) :
    b.left.length + 1 + b.right.length < cs.length ∧ 0 < b.left.length ∧ 0 < b.right.length := by
  unfold arithmetic? at h
  split_ifs at h
  dsimp only at h
  split at h
  · rename_i c' left' c after hleft hafter
    obtain ⟨op, -, hop⟩ := Option.bind_eq_some_iff.1 h
    obtain ⟨right, hright, rfl⟩ := Option.map_eq_some_iff.1 hop
    obtain ⟨hlen, hpos⟩ := length_of_arithmeticRight? hright
    have hspaces := length_dropSpaces_le (cs.drop (cs.takeWhile (· ≠ ' ')).length)
    have htake := (List.takeWhile_prefix (fun c => decide (c ≠ ' ')) (l := cs)).length_le
    rw [hafter, List.length_drop, List.length_cons] at hspaces
    have hne : 0 < (cs.takeWhile (· ≠ ' ')).length := by
      rw [hleft]
      exact Nat.succ_pos _
    refine ⟨?_, hne, hpos⟩
    dsimp only
    omega
  · cases h

end Shorthand

theorem Operators.do_not_mem_readers : "do" ∉ Operators.readers := by decide

theorem Operators.toUnique_not_mem_readers : "toUnique" ∉ Operators.readers := by decide

namespace Registry

/-- An object that is no data has a single field, whose name is an operator or a path. -/
theorem objectRole_eq_invocation {reg : Registry} {fields : List (String × Json)} {name : String}
    {args : List Operand} (hrole : reg.objectRole fields = .invocation name args) :
    ∃ key operand, fields = [(key, operand)] ∧ (name = key ∧ args = operandsOf operand ∨
      name = "set" ∧ args = [.ofForm (.string key), .ofForm operand]) := by
  match fields with
  | [] => cases hrole
  | _ :: _ :: _ => cases hrole
  | [(key, operand)] =>
    simp only [objectRole] at hrole
    split_ifs at hrole
    · cases hrole
      exact ⟨_, operand, rfl, .inl ⟨rfl, rfl⟩⟩
    · cases hrole
      exact ⟨key, operand, rfl, .inr ⟨rfl, rfl⟩⟩

/-- An object invokes only what the registry knows. -/
theorem isSome_of_objectRole {fields : List (String × Json)} {name : String} {args : List Operand}
    (hrole : builtin.objectRole fields = .invocation name args) :
    (builtin.operator? name).isSome = true := by
  match fields with
  | [] => cases hrole
  | _ :: _ :: _ => cases hrole
  | [(key, operand)] =>
    simp only [objectRole] at hrole
    split_ifs at hrole with hkey
    · cases hrole
      exact hkey
    · cases hrole
      rfl

theorem mem_operandsOf {operand : Json} {o : Operand} (ho : o ∈ operandsOf operand) :
    ∃ form, o = .ofForm form ∧
      (form = operand ∨ ∃ items, operand = .array items ∧ form ∈ items) := by
  cases operand with
  | array items =>
    obtain ⟨form, hmem, rfl⟩ := List.mem_map.1 ho
    exact ⟨form, rfl, .inr ⟨items, rfl, hmem⟩⟩
  | _ => exact ⟨_, List.mem_singleton.1 ho, .inl rfl⟩

theorem IsBuiltin.objectRole_eq {reg : Registry} (hreg : reg.IsBuiltin)
    (fields : List (String × Json)) : reg.objectRole fields = builtin.objectRole fields := by
  match fields with
  | [] => rfl
  | _ :: _ :: _ => rfl
  | [(key, operand)] => simp only [objectRole, hreg.operator?_eq]

/-- Only operators that read have aliases, so a reader's name never stands for another operator. -/
theorem IsBuiltin.name_mem_readers {reg : Registry} (hreg : reg.IsBuiltin) {name : String}
    {op : Operator} (hop : reg.operator? name = some op) (hname : name ∈ Operators.readers) :
    op.name ∈ Operators.readers := by
  have haliases : ∀ op ∈ Operators.builtin, op.aliases ≠ [] → op.name ∈ Operators.readers := by
    decide
  have hnamed : op.isNamed name = true :=
    List.find?_some (p := fun o : Operator => o.isNamed name) hop
  by_cases hnil : op.aliases = []
  · rw [Operator.isNamed, hnil] at hnamed
    have heq : op.name = name := by simpa using hnamed
    exact heq ▸ hname
  · exact haliases op (hreg.mem hop) hnil

end Registry

namespace Uniform

variable {I : State → Prop} {E : EvalError → Prop}
  {R : (α : Type) → (α → Prop) → EvalM α → EvalM α → Prop} {V : Value → Prop}
  {G : RegistryRef → Prop} {P : Json → Prop}

theorem raw_ofText (text : List Char) :
    (Operand.ofText text).raw = .string (String.ofList (normalizePath text)) := by
  simp [Operand.ofText, Operand.ofForm]

/-- Following a text evaluates shorter texts only. -/
theorem located_ofText {text : List Char}
    (hP : ∀ t : List Char, t.length < text.length → P (.string (String.ofList t))) :
    Located P (.ofText text) := by
  have htext : (Operand.ofText text).text? = some (String.ofList (normalizePath text)) := by
    rw [Operand.text?, raw_ofText]
    rfl
  unfold Located
  rw [htext]
  intro expr hexpr
  have hlen := length_normalizePath_le text
  rw [String.toList_ofList] at hexpr
  exact hP expr (by omega)

theorem operand_ofText {n : Nat}
    (hP : ∀ t : List Char, t.length < n → P (.string (String.ofList t)))
    {text : List Char} (htext : text.length + 1 < n) :
    P (Operand.ofText text).raw ∧ Located P (.ofText text) := by
  have hlen := length_normalizePath_le text
  refine ⟨?_, located_ofText fun t ht => hP t (by omega)⟩
  rw [raw_ofText]
  exact hP _ (by omega)

/-- The property holds of what one step evaluates of a form, calls apart. Making a function does not
evaluate its operands. -/
def Parts (P : Json → Prop) : Json → Prop
  | .string s => ∀ t : List Char, t.length < s.toList.length → P (.string (String.ofList t))
  | .array items => ∀ j ∈ items, P j
  | .object fields =>
    match Registry.builtin.objectRole fields with
    | .data => ∀ e ∈ fields, P e.2
    | .invocation name args =>
      (name ≠ "function" → ∀ o ∈ args, P o.raw ∧ Located P o) ∧
        (name = "function" → ∀ o ∈ args, Captured P o)
  | _ => True

theorem parts_true (form : Json) : Parts (fun _ => True) form := by
  cases form with
  | object fields =>
    rw [Parts]
    split
    · exact fun _ _ => trivial
    · exact ⟨fun _ o _ => ⟨trivial, located_of_texts (fun _ => trivial) trivial⟩,
        fun _ _ _ _ _ _ _ => trivial⟩
  | _ => simp [Parts]

/-- The form invokes the operator. -/
def Invokes (form : Json) (op : Operator) : Prop :=
  ∃ fields name args, form = .object fields ∧
    Registry.builtin.objectRole fields = .invocation name args ∧
      Registry.builtin.operator? name = some op

variable (hR : Uniform I E R) (hI : Readable I V G)

include hR

theorem resultIn_check (operator : String) (arity : Arity) (n : Nat) :
    ResultIn E (fun _ => arity.least ≤ n) (arity.check operator n) := by
  cases hcheck : arity.check operator n with
  | ok => exact Arity.least_le_of_check hcheck
  | error e =>
    unfold Arity.check at hcheck
    split at hcheck
    · cases hcheck
    · split_ifs at hcheck
      exact Except.error.inj hcheck ▸ hR.own rfl
    · split_ifs at hcheck
      · exact Except.error.inj hcheck ▸ hR.own rfl
      · split at hcheck
        · split_ifs at hcheck
          exact Except.error.inj hcheck ▸ hR.own rfl
        · cases hcheck

theorem evalItems {items : List Json} {f f' : Json → EvalM Value}
    (hf : ∀ j ∈ items, R Value V (f j) (f' j)) :
    R (List Value) (fun vs => ∀ v ∈ vs, V v) (Registry.evalItems f items)
      (Registry.evalItems f' items) := by
  induction items with
  | nil => exact hR.pure (List.forall_mem_nil V)
  | cons j rest ih =>
    rw [List.forall_mem_cons] at hf
    refine hR.bind hf.1 fun _ hv => hR.bind (ih hf.2) fun _ hvs => ?_
    exact hR.pure (List.forall_mem_cons.2 ⟨hv, hvs⟩)

theorem evalFields {fields : List (String × Json)} {f f' : Json → EvalM Value}
    (hf : ∀ e ∈ fields, R Value V (f e.2) (f' e.2)) :
    R (List (String × Value)) (fun vs => ∀ e ∈ vs, V e.2) (Registry.evalFields f fields)
      (Registry.evalFields f' fields) := by
  induction fields with
  | nil => exact hR.pure fun _ he => nomatch he
  | cons e rest ih =>
    rw [List.forall_mem_cons] at hf
    refine hR.bind hf.1 fun _ hv => hR.bind (ih hf.2) fun _ hvs => ?_
    exact hR.pure (List.forall_mem_cons.2 ⟨hv, hvs⟩)

variable {reg : Registry} (hreg : reg.HasBuiltin) {ev ev' : Registry → Evaluator} {env : MapRef}
  (hsc : (reg.scope ev env).Within V G)
  (hev : ∀ form, P form → R Value V (ev reg env form) (ev' reg env form))

include hI hreg hsc hev

theorem invokeNamed {name : String} {args : List Operand}
    (hknown : (Registry.builtin.operator? name).isSome = true)
    (hwrite : ∀ op, Registry.builtin.operator? name = some op → op.name ∉ Operators.readers →
      Writable I V G)
    (hstart : ∀ op, Registry.builtin.operator? name = some op → op.name = "toUnique" →
      ∀ kind capacity, R Unit (fun _ => True) (Operators.startWindow kind capacity)
        (Operators.startWindow kind capacity))
    (hargs : name ≠ "function" → ∀ o ∈ args, P o.raw ∧ Located P o)
    (hfixed : name = "function" → ∀ o ∈ args, Captured P o)
    (hdo : ∀ op, Registry.builtin.operator? name = some op → op.name = "do" → 1 ≤ args.length →
      R Value V (Operators.invoke (reg.scope ev env) args)
        (Operators.invoke (reg.scope ev' env) args)) :
    R Value V (reg.invoke ev env name args) (reg.invoke ev' env name args) := by
  have hbuiltin : Registry.builtin.IsBuiltin := rfl
  obtain ⟨op, hop⟩ := Option.isSome_iff_exists.1 hknown
  simp only [Registry.invoke, hreg name op hop]
  refine hR.bind (hR.ofExcept (hR.resultIn_check _ _ _)) fun _ hlen => ?_
  by_cases hname : op.name = "do"
  · obtain rfl : name = "do" := (hbuiltin.name_eq hop (.inl hname)).trans hname
    rw [hbuiltin.run_do hop]
    exact hdo op hop hname (hbuiltin.arity_do hop ▸ hlen)
  · refine hR.builtin hsc hev hI (hbuiltin.mem hop) (hwrite op hop) hname (hstart op hop) hlen
      (fun hfun => ?_) fun hfun => ?_
    · refine hargs ?_
      rintro rfl
      exact hfun (hbuiltin.name_function hop)
    · exact hfixed ((hbuiltin.name_eq hop (.inr (.inl hfun))).trans hfun)

theorem invokeGet {path : Operand} (hpath : Located P path) :
    R Value V (reg.invoke ev env "get" [path]) (reg.invoke ev' env "get" [path]) := by
  simp only [Registry.invoke, hreg "get" _ Registry.operator?_get]
  refine hR.bind (hR.ofExcept (hR.resultIn_check _ _ _)) fun _ _ => ?_
  exact hR.get hsc hev hI hpath (List.forall_mem_nil _)

/-- A text only reads, whatever its shape. -/
theorem evalText {text : List Char}
    (hP : ∀ t : List Char, t.length < text.length → P (.string (String.ofList t))) :
    R Value V (reg.evalText ev env text) (reg.evalText ev' env text) := by
  have hread {name : String} (hname : name ∈ Operators.readers) (hfun : name ≠ "function")
      (hknown : (Registry.builtin.operator? name).isSome = true) {args : List Operand}
      (hargs : ∀ o ∈ args, P o.raw ∧ Located P o) :
      R Value V (reg.invoke ev env name args) (reg.invoke ev' env name args) := by
    have hreader (op : Operator) (hop : Registry.builtin.operator? name = some op) :
        op.name ∈ Operators.readers := Registry.IsBuiltin.name_mem_readers rfl hop hname
    refine hR.invokeNamed hI hreg hsc hev hknown
      (fun op hop hwriter => absurd (hreader op hop) hwriter)
      (fun op hop hunique => absurd (hreader op hop) (hunique ▸ Operators.toUnique_not_mem_readers))
      (fun _ => hargs) (fun h => absurd h hfun) fun op hop hdo _ => ?_
    exact absurd (hreader op hop) (hdo ▸ Operators.do_not_mem_readers)
  unfold Registry.evalText
  refine ite (hR.pure hsc.env) ?_
  split
  · rename_i b hb
    obtain ⟨hlen, hleft, hright⟩ := Shorthand.length_of_comparison? hb
    have hsymbol : 0 < b.op.symbol.length := by cases b.op <;> decide
    refine hread (by decide) (by decide) rfl ?_
    simp only [List.mem_cons, List.not_mem_nil, or_false]
    rintro o (rfl | rfl | rfl)
    · exact operand_ofText hP (by omega)
    · exact operand_ofText hP (by omega)
    · exact operand_ofText hP (by omega)
  · split
    · rename_i b hb
      obtain ⟨hlen, hleft, hright⟩ := Shorthand.length_of_arithmetic? hb
      refine hread (by cases b.op <;> decide) (by cases b.op <;> decide) (by cases b.op <;> rfl) ?_
      simp only [List.mem_cons, List.not_mem_nil, or_false]
      rintro o (rfl | rfl)
      · exact operand_ofText hP (by omega)
      · exact operand_ofText hP (by omega)
    · exact ite (hR.invokeGet hI hreg hsc hev (located_ofText hP))
        (hR.pure (value_of_name hI hsc _))

omit hreg in
theorem step (hreg : reg.IsBuiltin) {form : Json} (hparts : Parts P form)
    (hwrite : ∀ op, Invokes form op → op.name ∉ Operators.readers → Writable I V G)
    (hstart : ∀ op, Invokes form op → op.name = "toUnique" → ∀ kind capacity, R Unit
      (fun _ => True) (Operators.startWindow kind capacity) (Operators.startWindow kind capacity))
    (hdo : ∀ op, Invokes form op → op.name = "do" → ∀ args : List Operand, 1 ≤ args.length →
      R Value V (Operators.invoke (reg.scope ev env) args)
        (Operators.invoke (reg.scope ev' env) args)) :
    R Value V (reg.step ev env form) (reg.step ev' env form) := by
  cases form with
  | string s => exact hR.evalText hI hreg.hasBuiltin hsc hev hparts
  | array items =>
    exact hR.bind (hR.evalItems fun j hj => hev j (hparts j hj)) fun vs hvs => hR.newList hI hvs
  | object fields =>
    rw [Parts] at hparts
    simp only [Registry.step, hreg.objectRole_eq]
    split at hparts
    · rename_i hrole
      rw [hrole]
      exact hR.bind (hR.evalFields fun e he => hev e.2 (hparts e he)) fun vs hvs =>
        hR.newMap hI hvs
    · rename_i name args hrole
      rw [hrole]
      have hinvokes (op : Operator) (hop : Registry.builtin.operator? name = some op) :
          Invokes (.object fields) op := ⟨fields, name, args, rfl, hrole, hop⟩
      exact hR.invokeNamed hI hreg.hasBuiltin hsc hev (Registry.isSome_of_objectRole hrole)
        (fun op hop => hwrite op (hinvokes op hop)) (fun op hop => hstart op (hinvokes op hop))
        hparts.1 hparts.2 fun op hop hname => hdo op (hinvokes op hop) hname args
  | _ => exact hR.ofJson hI _

end Uniform

/-! ## Invariants of evaluation -/

/-- The first evaluation keeps the invariant and raises only errors of the set, if it ends. -/
def Keeps (I : State → Prop) (E : EvalError → Prop) (α : Type) (Q : α → Prop) (m _ : EvalM α) :
    Prop :=
  ∀ s o, I s → m s = .ended o → I o.state ∧ ResultIn E Q o.result

theorem uniform_keeps (I : State → Prop) {E : EvalError → Prop}
    (hE : ∀ e : EvalError, e.isOwn = true → E e) : Uniform I E (Keeps I E) where
  own he := hE _ he
  command f hf s o hs h := by
    obtain rfl := Course.ended.inj h
    exact hf s hs
  bind {α β Q Q' m m' f f'} hm hf s o hs h := by
    cases hms : m s with
    | crashed => cases (EvalM.bind_of_crashed hms).symm.trans h
    | tooDeep => cases (EvalM.bind_of_tooDeep hms).symm.trans h
    | ended r =>
      obtain ⟨result, t⟩ := r
      obtain ⟨ht, hQ⟩ := hm s _ hs hms
      cases result with
      | ok a =>
        rw [EvalM.bind_of_ok hms] at h
        exact hf a hQ t o ht h
      | error e =>
        rw [EvalM.bind_of_error hms] at h
        obtain rfl := Course.ended.inj h
        exact ⟨ht, hQ⟩
  attempt hm s o hs h := by
    obtain ⟨r, hr, rfl⟩ := Course.map_eq_ended h
    exact hm s r hs hr

/-- Starting a window leaves the heap alone if it does not crash. -/
theorem keeps_startWindow {I : State → Prop} {E : EvalError → Prop}
    (hsame : ∀ s s', I s → s'.heap = s.heap → I s') (kind : String) (capacity : Nat) :
    Keeps I E Unit (fun _ => True) (Operators.startWindow kind capacity)
      (Operators.startWindow kind capacity) := by
  intro s o hs h
  unfold Operators.startWindow at h
  split at h
  · obtain rfl := Course.ended.inj h
    exact ⟨hsame s _ hs rfl, trivial⟩
  · cases h

/-- An evaluation with the built-in operators keeps every invariant that writing keeps, and raises
only errors of its own, as long as the functions of the embedder do. The values of the registries
that it may come to have the property. -/
theorem keeps_evaluate {I : State → Prop} {E : EvalError → Prop}
    (hE : ∀ e : EvalError, e.isOwn = true → E e) {V : Value → Prop} {G : RegistryRef → Prop}
    (hI : Writable I V G) {reg : Registry} (hreg : reg.AllBuiltin)
    (hvalues : ∀ r name v, G r → (reg.select r).values.get? name = some v → V v)
    (hhost : ∀ s r n f, I s → V (.host r) → (s.heap.function r).action = .embedded n →
      reg.functions[n]? = some f → ∀ vs, (∀ v ∈ vs, V v) → Keeps I E Value V (f vs) (f vs))
    (depth : Nat) (hself : G reg.self) {env : MapRef} (henv : V (.map env)) (form : Json) :
    Keeps I E Value V (reg.evaluate depth env form) (reg.evaluate depth env form) := by
  induction depth generalizing reg env form with
  | zero => exact fun s o _ h => nomatch h
  | succ depth ih =>
    have hnull (r : RegistryRef) (env : MapRef) : Keeps I E Value V
        ((reg.select r).evaluate depth env .null) ((reg.select r).evaluate depth env .null) := by
      cases depth with
      | zero => exact fun s o _ h => nomatch h
      | succ => exact (uniform_keeps I hE).pure (hI.plain rfl)
    have hsc : (reg.scope (·.evaluate depth) env).Within V G := ⟨henv, hself, hvalues _ _ _ hself⟩
    refine (uniform_keeps I hE).step hI.toReadable hsc
      (fun form _ => ih hreg hvalues hhost hself henv form) hreg.isBuiltin
      (Uniform.parts_true form) (fun _ _ _ => hI)
      (fun _ _ _ => keeps_startWindow fun _ _ => hI.sameHeap) fun _ _ _ args hlen => ?_
    -- A closure may bring in another registry of the process, of which all that is assumed holds
    -- too.
    refine (uniform_keeps I hE).invoke hsc hI (fun r env form hr henv => ?_) hhost hlen
    rcases hr with hr | rfl
    · exact ih (hreg.select r) hvalues hhost hr henv form
    · exact hnull r env

/-! ## Heaps grow under evaluation -/

/-- The first evaluation lets the heap grow, if it ends. -/
def GrowsHeap (α : Type) (m _ : EvalM α) : Prop := ∀ s o, m s = .ended o → s.heap.Grows o.state.heap

theorem writable_grows (h : Heap) :
    Writable (fun s => h.Grows s.heap) (fun _ => True) fun _ => True where
  plain _ := trivial
  element _ _ _ := trivial
  field _ _ _ := trivial
  newList hs _ := ⟨hs.trans (Heap.grows_newList _ _), trivial⟩
  newMap hs _ := ⟨hs.trans (Heap.grows_newMap _ _), trivial⟩
  newClosure hs _ _ _ := ⟨hs.trans (Heap.grows_newClosure _ _), trivial⟩
  held _ _ _ := trivial
  newFunction hs _ _ := ⟨hs.trans (Heap.grows_newFunction _ _), trivial⟩
  setList hs _ _ := hs.trans (Heap.grows_setList _ _ _)
  setMap hs _ _ := hs.trans (Heap.grows_setMap _ _ _)
  newTimer _ hs := ⟨hs.trans (Heap.grows_newNative _ _), trivial⟩
  cancel _ hs := hs.trans (Heap.grows_cancel _ _)
  sameHeap hs he := he ▸ hs
  captured _ _ := ⟨trivial, .inl trivial, fun _ _ => trivial⟩

/-- The functions of the embedder let the heap grow. -/
def Registry.KeepsHeap (reg : Registry) : Prop :=
  ∀ f ∈ reg.functions, ∀ vs, GrowsHeap Value (f vs) (f vs)

/-- An evaluation with the built-in operators lets the heap grow. -/
theorem growsHeap_evaluate {reg : Registry} (hreg : reg.AllBuiltin) (hhost : reg.KeepsHeap)
    (depth : Nat) (env : MapRef) (form : Json) :
    GrowsHeap Value (reg.evaluate depth env form) (reg.evaluate depth env form) := by
  intro s o h
  refine (keeps_evaluate (E := fun _ => True) (fun _ _ => trivial) (writable_grows s.heap) hreg
    (fun _ _ _ _ _ => trivial) ?_ depth trivial trivial form s o (.refl _) h).1
  intro _ _ _ f _ _ _ hf vs _ t o ht h
  exact ⟨ht.trans (hhost f (List.mem_of_getElem? hf) vs t o h), resultIn_true _⟩

end Sigil
