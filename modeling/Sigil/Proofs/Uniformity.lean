import Sigil.Eval.Registry
import Sigil.Proofs.StateInvariant

/-!
# Uniform relations between evaluations

Evaluation is built from commands, which end, by sequencing and catching. A relation between
evaluations that these respect is `Uniform`, as long as the commands keep an invariant of the states
and raise only certain errors. The relation also says what holds of the answers. Here it passes from
two evaluators to the operands and the paths that they evaluate; expressions in the brackets of a
path are shorter than the path (`Path.brackets_read`).
-/

namespace Sigil

/-! ## Expressions in brackets -/

namespace Path

/-- Every expression in brackets has the property. -/
def Trail.Brackets (p : List Char → Prop) : Trail → Prop
  | .malformed => True
  | .last (.name _) => True
  | .last (.computed expr) => p expr
  | .step (.name _) rest => rest.Brackets p
  | .step (.computed expr) rest => p expr ∧ rest.Brackets p

theorem Trail.Brackets.imp {p q : List Char → Prop} (hpq : ∀ expr, p expr → q expr) {t : Trail}
    (ht : t.Brackets p) : t.Brackets q := by
  induction t with
  | malformed => trivial
  | last s =>
    cases s with
    | name => trivial
    | computed expr => exact hpq expr ht
  | step s rest ih =>
    cases s with
    | name => exact ih ht
    | computed expr => exact ⟨hpq expr ht.1, ih ht.2⟩

theorem length_dropPoint_le (text : List Char) : (dropPoint text).length ≤ text.length := by
  unfold dropPoint
  split <;> simp

theorem length_of_nextSegment? {text rest : List Char} {s : Segment}
    (h : nextSegment? text = some (s, rest)) :
    rest.length < text.length ∧ ∀ expr, s = .computed expr → expr.length + 2 ≤ text.length := by
  unfold nextSegment? at h
  split at h
  · rename_i inner
    dsimp only at h
    split at h
    · cases h
    · rename_i tail htail
      have hlen := congrArg List.length htail
      have hpoint := length_dropPoint_le tail
      rw [List.length_drop, List.length_cons] at hlen
      split_ifs at h
      obtain ⟨rfl, rfl⟩ := Prod.mk.inj (Option.some.inj h)
      refine ⟨by simp only [List.length_cons]; omega, fun expr he => ?_⟩
      obtain rfl := Segment.computed.inj he
      simp only [List.length_cons]
      omega
  · dsimp only at h
    split_ifs at h with hempty
    obtain ⟨rfl, rfl⟩ := Prod.mk.inj (Option.some.inj h)
    refine ⟨?_, fun expr he => nomatch he⟩
    have hpos := List.length_pos_iff.2 (mt List.isEmpty_iff.2 hempty)
    have hpoint := length_dropPoint_le (text.drop (text.takeWhile isNameChar).length)
    have hname := (List.takeWhile_prefix isNameChar (l := text)).length_le
    rw [List.length_drop] at hpoint
    omega

theorem brackets_read (n : Nat) (text : List Char) :
    (Trail.read n text).Brackets fun expr => expr.length + 2 ≤ text.length := by
  induction n generalizing text with
  | zero => trivial
  | succ n ih =>
    unfold Trail.read
    split
    · trivial
    · rename_i s hs
      cases s with
      | name => trivial
      | computed expr => exact (length_of_nextSegment? hs).2 expr rfl
    · rename_i s rest _ hs
      obtain ⟨hrest, hexpr⟩ := length_of_nextSegment? hs
      have hread := (ih rest).imp (q := fun expr => expr.length + 2 ≤ text.length)
        fun expr he => by omega
      cases s with
      | name => exact hread
      | computed expr => exact ⟨hexpr expr rfl, hread⟩

theorem length_of_splitFirst? {text first rest : List Char}
    (h : splitFirst? text = some (first, rest)) : rest.length < text.length := by
  unfold splitFirst? at h
  dsimp only at h
  split_ifs at h with hempty
  obtain ⟨-, rfl⟩ := Prod.mk.inj (Option.some.inj h)
  have hne : text.takeWhile isNameChar ≠ [] := fun hnil => hempty (by simp [hnil])
  have hpos := List.length_pos_iff.2 hne
  have hpoint := length_dropPoint_le (text.drop (text.takeWhile isNameChar).length)
  have hname := (List.takeWhile_prefix isNameChar (l := text)).length_le
  rw [List.length_drop] at hpoint
  omega

end Path

/-! ## Uniform relations -/

namespace EvalM

variable {α β : Type} {m : EvalM α} {f : α → EvalM β} {s t : State}

theorem bind_of_ok {a : α} (hm : m s = .ended ⟨.ok a, t⟩) : (m >>= f) s = f a t := by
  change EvalM.bind m f s = _
  rw [EvalM.bind, hm]
  rfl

theorem bind_of_error {e : EvalError} (hm : m s = .ended ⟨.error e, t⟩) :
    (m >>= f) s = .ended ⟨.error e, t⟩ := by
  change EvalM.bind m f s = _
  rw [EvalM.bind, hm]
  rfl

theorem bind_of_crashed (hm : m s = .crashed t) : (m >>= f) s = .crashed t := by
  change EvalM.bind m f s = _
  rw [EvalM.bind, hm]
  rfl

theorem bind_of_tooDeep (hm : m s = .tooDeep) : (m >>= f) s = .tooDeep := by
  change EvalM.bind m f s = _
  rw [EvalM.bind, hm]
  rfl

/-- What follows an attempt runs however the attempt ends. -/
theorem bind_attempt (m : EvalM α) (f : Except EvalError α → EvalM β) (s : State) :
    (attempt m >>= f) s = (m s).bind fun o => f o.result o.state := by
  change EvalM.bind (attempt m) f s = _
  rw [EvalM.bind, attempt]
  cases m s <;> rfl

end EvalM

theorem Course.map_eq_ended {α β : Type} {c : Course α} {f : Outcome α → Outcome β}
    {o : Outcome β} (h : c.map f = .ended o) : ∃ r, c = .ended r ∧ f r = o := by
  cases c with
  | ended r => exact ⟨r, rfl, Course.ended.inj h⟩
  | crashed | tooDeep => cases h

/-- The outcome of an evaluation that ended. -/
def Course.outcome? {α : Type} : Course α → Option (Outcome α)
  | .ended o => some o
  | _ => none

theorem Course.exists_of_outcome?_map {α β : Type} {c : Course α} {f : Outcome α → β} {b : β}
    (h : c.outcome?.map f = some b) : ∃ o, c = .ended o ∧ f o = b := by
  cases c with
  | ended o => exact ⟨o, rfl, Option.some.inj h⟩
  | crashed | tooDeep => cases h

theorem Outcome.result_eq_ok {α : Type} {o : Outcome α} {a : α}
    (h : o.result.toOption = some a) : o.result = .ok a := by
  obtain ⟨result, s⟩ := o
  cases result with
  | ok b => exact congrArg Except.ok (Option.some.inj h)
  | error e => cases h

/-- A command always ends, with an answer or an error. -/
def EvalM.command {α : Type} (f : State → Except EvalError α × State) : EvalM α := fun s =>
  .ended ⟨(f s).1, (f s).2⟩

/-- The answer has the one property, or the error has the other. -/
def ResultIn (E : EvalError → Prop) {α : Type} (Q : α → Prop) : Except EvalError α → Prop
  | .ok a => Q a
  | .error e => E e

theorem resultIn_true {α : Type} (r : Except EvalError α) :
    ResultIn (fun _ => True) (fun _ => True) r := by
  cases r <;> trivial

/-- An error that programs raise whatever the embedder provides. Operators use no operands that are
not there. -/
def EvalError.isOwn : EvalError → Bool
  | .typeMismatch _ | .noMatch _ => true
  | .badOperand .missing => false
  | .badOperand _ => true
  | .host _ | .unknownOperator _ => false

/-- A relation between evaluations with a property of their answers. Commands that keep the
invariant `I` and raise errors of the set `E`, sequencing and catching respect it. -/
structure Uniform (I : State → Prop) (E : EvalError → Prop)
    (R : (α : Type) → (α → Prop) → EvalM α → EvalM α → Prop) : Prop where
  own {e : EvalError} : e.isOwn = true → E e
  command {α : Type} {Q : α → Prop} (f : State → Except EvalError α × State)
    (hf : ∀ s, I s → I (f s).2 ∧ ResultIn E Q (f s).1) :
    R α Q (EvalM.command f) (EvalM.command f)
  bind {α β : Type} {Q : α → Prop} {Q' : β → Prop} {m m' : EvalM α} {f f' : α → EvalM β}
    (hm : R α Q m m') (hf : ∀ a, Q a → R β Q' (f a) (f' a)) : R β Q' (m >>= f) (m' >>= f')
  attempt {α : Type} {Q : α → Prop} {m m' : EvalM α} (hm : R α Q m m') :
    R (Except EvalError α) (ResultIn E Q) (EvalM.attempt m) (EvalM.attempt m')

/-- The scope with another evaluator. -/
abbrev Scope.under (sc : Scope) (ev : RegistryRef → Evaluator) : Scope :=
  { sc with evaluator := ev }

/-- The environment and the values that the embedder bound have the one property, and the registry
has the other. -/
structure Scope.Within (sc : Scope) (V : Value → Prop) (G : RegistryRef → Prop) : Prop where
  env : V (.map sc.env)
  registry : G sc.registry
  values {name : String} {v : Value} : sc.values.get? name = some v → V v

/-- The location leads to values with the property. -/
def Location.Within (V : Value → Prop) : Location → Prop
  | .notFound => True
  | .whole v => V v
  | .slot _ parent => V parent

namespace Uniform

variable {I : State → Prop} {E : EvalError → Prop}
  {R : (α : Type) → (α → Prop) → EvalM α → EvalM α → Prop} (hR : Uniform I E R) {α : Type}
  {Q : α → Prop}

theorem ite {c : Prop} [Decidable c] {m m' n n' : EvalM α} (hm : R α Q m m') (hn : R α Q n n') :
    R α Q (if c then m else n) (if c then m' else n') := by
  split
  · exact hm
  · exact hn

include hR

/-! ## Commands -/

theorem pure {a : α} (ha : Q a) : R α Q (Pure.pure a) (Pure.pure a) :=
  hR.command (fun s => (.ok a, s)) fun _ hs => ⟨hs, ha⟩

theorem throw {e : EvalError} (he : e.isOwn = true) : R α Q (EvalM.throw e) (EvalM.throw e) :=
  hR.command (fun s => (.error e, s)) fun _ hs => ⟨hs, hR.own he⟩

theorem ofExcept {r : Except EvalError α} (hr : ResultIn E Q r) :
    R α Q (EvalM.ofExcept r) (EvalM.ofExcept r) := by
  cases r with
  | ok a => exact hR.pure hr
  | error e => exact hR.command (fun s => (.error e, s)) fun _ hs => ⟨hs, hr⟩

theorem getState : R State I EvalM.getState EvalM.getState :=
  hR.command (fun s => (.ok s, s)) fun _ hs => ⟨hs, hs⟩

theorem getHeap : R Heap (fun h => ∃ s, I s ∧ s.heap = h) EvalM.getHeap EvalM.getHeap :=
  hR.command (fun s => (.ok s.heap, s)) fun s hs => ⟨hs, s, hs, rfl⟩

theorem modifyState {f : State → State} (hf : ∀ s, I s → I (f s)) :
    R Unit (fun _ => True) (EvalM.modifyState f) (EvalM.modifyState f) :=
  hR.command (fun s => (.ok (), f s)) fun s hs => ⟨hf s hs, trivial⟩

theorem modifyHeap {f : Heap → Heap} (hf : ∀ s, I s → I { s with heap := f s.heap }) :
    R Unit (fun _ => True) (EvalM.modifyHeap f) (EvalM.modifyHeap f) :=
  hR.modifyState hf

theorem onHeap {f : Heap → α × Heap}
    (hf : ∀ s, I s → I { s with heap := (f s.heap).2 } ∧ Q (f s.heap).1) :
    R α Q (EvalM.onHeap f) (EvalM.onHeap f) :=
  hR.command (fun s => (.ok (f s.heap).1, { s with heap := (f s.heap).2 })) fun s hs => hf s hs

theorem kindOf (v : Value) : R String (fun _ => True) (EvalM.kindOf v) (EvalM.kindOf v) :=
  hR.bind hR.getHeap fun _ _ => hR.pure trivial

theorem mismatch (v : Value) (cause : String → Mismatch) :
    R α Q (EvalM.mismatch v cause) (EvalM.mismatch v cause) :=
  hR.bind (hR.kindOf v) fun _ _ => hR.throw rfl

theorem toInt (v : Value) : R Int64 (fun _ => True) (EvalM.toInt v) (EvalM.toInt v) := by
  refine hR.bind hR.getHeap fun h _ => hR.ofExcept ?_
  unfold Value.toInt
  split
  · trivial
  · split
    · trivial
    · exact hR.own rfl
  · split_ifs
    · trivial
    · exact hR.own rfl
  · exact hR.own rfl

theorem literal (operator role : String) (o : Operand) :
    R String (fun _ => True) (Scope.literal operator role o) (Scope.literal operator role o) := by
  unfold Scope.literal
  split
  · exact hR.pure trivial
  · exact hR.throw rfl

section Reading

variable {V : Value → Prop} {G : RegistryRef → Prop} (hI : Readable I V G)

include hI

theorem newList {xs : List Value} (hxs : ∀ x ∈ xs, V x) :
    R Value V (EvalM.newList xs) (EvalM.newList xs) :=
  hR.bind (Q := fun r => V (.list r)) (hR.onHeap fun _ hs => hI.newList hs hxs) fun _ hr =>
    hR.pure hr

theorem newMap {fields : List (String × Value)} (hfields : ∀ e ∈ fields, V e.2) :
    R Value V (EvalM.newMap fields) (EvalM.newMap fields) :=
  hR.bind (Q := fun r => V (.map r))
    (hR.onHeap fun _ hs => hI.newMap hs (Fields.forall_values_ofList hfields)) fun _ hr =>
    hR.pure hr

theorem ofJson (j : Json) : R Value V (EvalM.ofJson j) (EvalM.ofJson j) :=
  hR.onHeap fun _ hs => hI.ofJson j hs

theorem envOfJson (j : Json) :
    R MapRef (fun r => V (.map r)) (Env.ofJson j) (Env.ofJson j) := by
  refine hR.bind (hR.ofJson hI j) fun v hv => ?_
  split
  · exact hR.pure hv
  · exact hR.onHeap fun _ hs => hI.newMap hs (Fields.forall_values_ofList fun _ he => nomatch he)

theorem member? {v : Value} (hv : V v) (key : Value) :
    R (Option Value) (fun x? => ∀ x ∈ x?, V x) (EvalM.member? v key) (EvalM.member? v key) := by
  refine hR.onHeap fun s hs => ?_
  split
  · rename_i x h hm
    obtain ⟨hs', hx⟩ := hI.member hs hv hm
    exact ⟨hs', fun y hy => Option.some.inj hy ▸ hx⟩
  · exact ⟨hs, fun y hy => nomatch hy⟩

theorem envGet? {env : MapRef} (henv : V (.map env)) (name : String) :
    R (Option Value) (fun x? => ∀ x ∈ x?, V x) (Env.get? env name) (Env.get? env name) :=
  hR.bind hR.getHeap fun _ ⟨_, hs, hh⟩ => hR.pure fun _ hx => hI.get? hs henv (hh ▸ hx)

theorem locationRead {location : Location} (hlocation : location.Within V) :
    R (Option Value) (fun x? => ∀ x ∈ x?, V x) location.read location.read := by
  cases location with
  | notFound => exact hR.pure fun _ hx => nomatch hx
  | whole v => exact hR.pure fun _ hx => Option.some.inj hx ▸ hlocation
  | slot key parent => exact hR.member? hI hlocation key

end Reading

section Writing

variable {V : Value → Prop} {G : RegistryRef → Prop} (hI : Writable I V G) {env : MapRef}
  (henv : V (.map env))

include hI

omit hI in
/-- What cannot be written to, or with such a key, is a mismatch. -/
theorem own_of_assign {v key value : Value} {h : Heap} {e : EvalError}
    (ha : v.assign h key value = .error e) : E e := by
  unfold Value.assign at ha
  split at ha
  · split at ha
    · cases ha
    · exact Except.error.inj ha ▸ hR.own rfl
  · split at ha
    · cases ha
    · exact Except.error.inj ha ▸ hR.own rfl
  · exact Except.error.inj ha ▸ hR.own rfl

theorem assign {v value : Value} (hv : V v) (key : Value) (hvalue : V value) :
    R Unit (fun _ => True) (EvalM.assign v key value) (EvalM.assign v key value) := by
  have hcommand : EvalM.assign v key value = EvalM.command fun s =>
      match v.assign s.heap key value with
      | .ok h => (.ok (), { s with heap := h })
      | .error e => (.error e, s) := by
    funext s
    change (EvalM.ofExcept (v.assign s.heap key value) >>= fun h =>
      EvalM.modifyHeap fun _ => h) s = _
    cases ha : v.assign s.heap key value with
    | ok h => simp only [EvalM.command, ha]; rfl
    | error e => simp only [EvalM.command, ha]; rfl
  rw [hcommand]
  refine hR.command _ fun s hs => ?_
  split
  · exact ⟨hI.assign hs hv hvalue ‹_›, trivial⟩
  · exact ⟨hs, hR.own_of_assign ‹_›⟩

include henv

theorem envSet (name : String) {value : Value} (hvalue : V value) :
    R Unit (fun _ => True) (Env.set env name value) (Env.set env name value) :=
  hR.modifyHeap fun _ hs => hI.set hs henv name hvalue

theorem envRemove (name : String) :
    R Unit (fun _ => True) (Env.remove env name) (Env.remove env name) :=
  hR.modifyHeap fun _ hs => hI.erase hs henv name

theorem envSetAll {fields : List (String × Value)} (hfields : ∀ e ∈ fields, V e.2) :
    R Unit (fun _ => True) (Env.setAll env fields) (Env.setAll env fields) := by
  induction fields with
  | nil => exact hR.pure trivial
  | cons field rest ih =>
    rw [List.forall_mem_cons] at hfields
    exact hR.bind (hR.envSet hI henv field.1 hfields.1) fun _ _ => ih hfields.2

end Writing

/-! ## Operands and paths -/

section Scope

variable {V : Value → Prop} {G : RegistryRef → Prop} (hI : Readable I V G) {sc : Scope}
  (hsc : sc.Within V G) {ev : RegistryRef → Evaluator} {P : Json → Prop}
  (hev : ∀ form, P form → R Value V (sc.evaluate sc.env form) (ev sc.registry sc.env form))

include hev

theorem evalAll {args : List Operand} (hargs : ∀ o ∈ args, P o.raw) :
    R (List Value) (fun vs => vs.length = args.length ∧ ∀ v ∈ vs, V v) (sc.evalAll args)
      ((sc.under ev).evalAll args) := by
  induction args with
  | nil => exact hR.pure ⟨rfl, fun _ hv => nomatch hv⟩
  | cons o rest ih =>
    rw [List.forall_mem_cons] at hargs
    refine hR.bind (hev _ hargs.1) fun _ hv => hR.bind (ih hargs.2) fun _ ⟨hlen, hvs⟩ => ?_
    exact hR.pure ⟨congrArg (· + 1) hlen, List.forall_mem_cons.2 ⟨hv, hvs⟩⟩

include hI hsc

omit hR hev in
theorem value_of_name (name : String) : V ((sc.values.get? name).getD (.string name)) := by
  cases hname : sc.values.get? name with
  | none => exact hI.plain rfl
  | some v => exact hsc.values hname

omit hR hev in
theorem value_of_word (text : List Char) : V (sc.word text) := by
  unfold Scope.word
  split
  · exact hsc.env
  · exact value_of_name hI hsc _

theorem key {seg : Path.Segment}
    (hseg : ∀ expr, seg = .computed expr → P (.string (String.ofList expr))) :
    R Value V (sc.key seg) ((sc.under ev).key seg) := by
  cases seg with
  | name text => exact hR.pure (value_of_name hI hsc _)
  | computed expr => exact hev _ (hseg expr rfl)

theorem walk {t : Path.Trail} (ht : t.Brackets fun expr => P (.string (String.ofList expr)))
    {v : Value} (hv : V v) :
    R Location (Location.Within V) (sc.walk t v) ((sc.under ev).walk t v) := by
  induction t generalizing v with
  | malformed => exact hR.pure trivial
  | last seg =>
    refine hR.bind (hR.key hI hsc hev ?_) fun _ _ => hR.pure hv
    rintro expr rfl
    exact ht
  | step seg rest ih =>
    have hrest : rest.Brackets fun expr => P (.string (String.ofList expr)) := by
      cases seg with
      | name => exact ht
      | computed => exact ht.2
    refine hR.bind (hR.key hI hsc hev ?_) fun k _ =>
      hR.bind (hR.member? hI hv k) fun next hnext => ?_
    · rintro expr rfl
      exact ht.1
    · cases next with
      | none => exact hR.pure trivial
      | some x => exact ite (hR.pure trivial) (ih hrest (hnext x rfl))

/-- The property holds of what following an operand as a path evaluates: the expressions in brackets
of a text, or the operand itself. -/
def Located (P : Json → Prop) (o : Operand) : Prop :=
  match o.text? with
  | some s =>
    ∀ expr : List Char, expr.length + 2 ≤ s.toList.length → P (.string (String.ofList expr))
  | none => P o.raw

omit hR hI hsc hev in
/-- If texts have the property, then so has what following an operand evaluates. -/
theorem located_of_texts (htexts : ∀ s, P (.string s)) {o : Operand} (ho : P o.raw) :
    Located P o := by
  unfold Located
  split
  · exact fun _ _ => htexts _
  · exact ho

theorem resolveText {text : List Char}
    (htext : ∀ expr : List Char, expr.length + 2 ≤ text.length → P (.string (String.ofList expr))) :
    R Location (Location.Within V) (sc.resolveText text) ((sc.under ev).resolveText text) := by
  unfold Scope.resolveText
  refine ite (hR.pure (value_of_word hI hsc text)) ?_
  split
  · exact hR.pure trivial
  · rename_i first rest hsplit
    refine ite (hR.pure trivial) (hR.walk hI hsc hev
      ((Path.brackets_read _ rest).imp fun expr he => ?_) (value_of_word hI hsc first))
    have hrest := Path.length_of_splitFirst? hsplit
    exact htext expr (by omega)

theorem resolve {o : Operand} (ho : Located P o) :
    R Location (Location.Within V) (sc.resolve o) ((sc.under ev).resolve o) := by
  unfold Located at ho
  unfold Scope.resolve
  cases htext : o.text? with
  | some s =>
    rw [htext] at ho
    exact hR.resolveText hI hsc hev ho
  | none =>
    rw [htext] at ho
    exact hR.bind (hev _ ho) fun _ hv => hR.pure hv

end Scope

end Uniform

end Sigil
